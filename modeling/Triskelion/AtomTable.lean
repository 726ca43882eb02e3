import Triskelion.RunRules
import Triskelion.Utf16Text
import Triskelion.WindowTable

/-! The global atoms (`event_loop/registry_handlers.rs`, `window.rs`, `mod.rs`): one map from
an atom to its name and count, one from a name to its atom. Atoms are made by the two atom
requests, by a class that is registered under a new name, by a window property with a new
name, and for the name of the display device. Of the requests only what they do to the two
maps, and the properties, is here.

Names are UTF-16 code units; the map of atoms keeps the bytes they came in. -/

namespace Triskelion.AtomTable

open Table Utf16Text

open RunRules (states AllSteps)

structure AtomServer where
  atoms : Table UInt32 (List UInt8 × Int32)
  atomNames : Table (List UInt16) UInt32
  nextAtom : UInt32
  windowProperties : Table (UInt32 × UInt32) UInt64
  desktopTopWindow : UInt32

def varargToU16 (bytes : List UInt8) : List UInt16 := ofLeBytes bytes

def lowerName (name : List UInt16) : List UInt16 := name.map WindowServer.lowerAsciiUnit

/-- `{:04x}`. -/
def hex4 (n : UInt32) : Str := (Nat.toDigits 16 n.toNat).leftpad 4 '0'

def gpuGuid (vendor device : UInt32) : Str :=
  hex4 vendor ++ hex4 device ++ "-0000-0000-0000-000000000000".toList

def displayGuid : Str := "00000000-0000-0000-0000-000000000000".toList

def displayProperty : Str := "__wine_display_device_guid".toList

namespace AtomServer

def empty (desktopTopWindow : UInt32) : AtomServer := ⟨.empty, .empty, 0xC000, .empty, desktopTopWindow⟩

section
variable (s : AtomServer)

def enter (bytes : List UInt8) (name : List UInt16) : UInt32 × AtomServer :=
  (s.nextAtom, { s with
    nextAtom := s.nextAtom + 1
    atoms := s.atoms.insert s.nextAtom (bytes, 1)
    atomNames := s.atomNames.insert name s.nextAtom })

def enterText (text : Str) : UInt32 × AtomServer :=
  s.enter (leBytes (encodeUtf16 text)) (encodeUtf16 text)

section
variable (vararg : List UInt8)

def handleAddAtom : UInt32 × AtomServer :=
  match s.atomNames.get? (varargToU16 vararg) with
  | some atom => (atom, { s with atoms := s.atoms.modify atom fun e => (e.1, e.2 + 1) })
  | none => s.enter vararg (varargToU16 vararg)

def handleAddUserAtom : UInt32 × AtomServer :=
  s.handleAddAtom vararg

def handleFindAtom : Except UInt32 UInt32 :=
  match s.atomNames.get? (varargToU16 vararg) with
  | some atom => .ok atom
  | none => .error 0xC0000034

end

section
variable (atom : UInt32)

def handleGetAtomInformation (maxVararg : UInt32) : Except UInt32 (Int32 × Nat × List UInt8) :=
  match s.atoms.get? atom with
  | some (name, count) => .ok (count, name.length, name.take maxVararg.toNat)
  | none => .error 0xC0000008

/-- Only the name as it was stored goes with the last reference. -/
def handleDeleteAtom : AtomServer :=
  match s.atoms.get? atom with
  | none => s
  | some (name, count) =>
    if count - 1 ≤ 0 then
      { s with
        atoms := s.atoms.erase atom
        atomNames := s.atomNames.erase (varargToU16 name) }
    else { s with atoms := s.atoms.insert atom (name, count - 1) }

def classAtom (vararg : List UInt8) : UInt32 × AtomServer :=
  if atom ≠ 0 then (atom, s)
  else
    match s.atomNames.get? (varargToU16 vararg) with
    | some existing => (existing, s)
    | none =>
      let made := s.enter vararg (varargToU16 vararg)
      (made.1, { made.2 with
        atomNames := made.2.atomNames.insert (lowerName (varargToU16 vararg)) made.1 })

end

/-- A new name gets an atom that is not stored. -/
def handleSetWindowProperty (window atom : UInt32) (data : UInt64)
    (vararg : List UInt8) : AtomServer :=
  if atom ≠ 0 then { s with windowProperties := s.windowProperties.insert (window, atom) data }
  else
    match s.atomNames.get? (varargToU16 vararg) with
    | some known => { s with windowProperties := s.windowProperties.insert (window, known) data }
    | none => { s with
        nextAtom := s.nextAtom + 1
        atomNames := s.atomNames.insert (varargToU16 vararg) s.nextAtom
        windowProperties := s.windowProperties.insert (window, s.nextAtom) data }

def applyDisplayData (vendor device : UInt32) : AtomServer :=
  let made := s.enterText (gpuGuid vendor device)
  match made.2.atomNames.get? (encodeUtf16 displayProperty) with
  | some property => { made.2 with
      windowProperties :=
        made.2.windowProperties.insert (s.desktopTopWindow, property) made.1.toUInt64 }
  | none => made.2

end

def boot (desktopTopWindow : UInt32) : AtomServer :=
  let guid := (empty desktopTopWindow).enterText displayGuid
  let property := guid.2.enterText displayProperty
  { property.2 with
    windowProperties :=
      property.2.windowProperties.insert (desktopTopWindow, property.1) guid.1.toUInt64 }

end AtomServer

inductive AtomRequest
  | addAtom (vararg : List UInt8)
  | addUserAtom (vararg : List UInt8)
  | deleteAtom (atom : UInt32)
  | createClass (atom : UInt32) (vararg : List UInt8)
  | setWindowProperty (window atom : UInt32) (data : UInt64) (vararg : List UInt8)
  | displayData (vendor device : UInt32)

def step (s : AtomServer) : AtomRequest → AtomServer
  | .addAtom vararg => (s.handleAddAtom vararg).2
  | .addUserAtom vararg => (s.handleAddUserAtom vararg).2
  | .deleteAtom atom => s.handleDeleteAtom atom
  | .createClass atom vararg => (s.classAtom atom vararg).2
  | .setWindowProperty window atom data vararg => s.handleSetWindowProperty window atom data vararg
  | .displayData vendor device => s.applyDisplayData vendor device

/-! ### What the two maps promise -/

/-- The two maps describe one relation, and what a name leads to can be looked up. -/
structure Agree (s : AtomServer) : Prop where
  named : ∀ name atom, s.atomNames.get? name = some atom → ∃ bytes count,
    s.atoms.get? atom = some (bytes, count) ∧ lowerName (varargToU16 bytes) = lowerName name
  counted : ∀ atom bytes count, s.atoms.get? atom = some (bytes, count) → 0 < count
  found : ∀ atom bytes count, s.atoms.get? atom = some (bytes, count) →
    s.atomNames.get? (varargToU16 bytes) = some atom
  range : ∀ atom bytes count, s.atoms.get? atom = some (bytes, count) →
    0xC000 ≤ atom ∧ atom ≤ 0xFFFF
  informed : ∀ vararg atom maxVararg, s.handleFindAtom vararg = .ok atom →
    ∃ info, s.handleGetAtomInformation atom maxVararg = .ok info

section
variable (s : AtomServer)

def room : Bool := s.nextAtom ≤ 0xFFFF

def unowned (name : List UInt16) : Bool :=
  s.atoms.entries.all fun e => varargToU16 e.2.1 ≠ name

section
variable (atom : UInt32) (name : List UInt16)

def onlyName : Bool :=
  s.atomNames.entries.all fun e => e.2 ≠ atom ∨ e.1 = name

def canAdd (vararg : List UInt8) : Bool :=
  match s.atomNames.get? (varargToU16 vararg) with
  | some atom => (s.atoms.get? atom).all fun e => e.2 ≠ Int32.maxValue
  | none => room s

/-- A request that neither runs out of atoms or counts, nor takes a name away from another
atom, nor leaves a name without its atom. -/
def orderly : AtomRequest → Bool
  | .addAtom vararg | .addUserAtom vararg => canAdd s vararg
  | .deleteAtom atom =>
    (s.atoms.get? atom).all fun e => 1 < e.2 ∨ onlyName s atom (varargToU16 e.1)
  | .createClass atom vararg =>
    atom ≠ 0 ∨ s.atomNames.contains (varargToU16 vararg) ∨
      room s ∧ unowned s (lowerName (varargToU16 vararg))
  | .setWindowProperty _ atom _ vararg => atom ≠ 0 ∨ s.atomNames.contains (varargToU16 vararg)
  | .displayData vendor device =>
    room s ∧ unowned s (encodeUtf16 (gpuGuid vendor device))

theorem unowned_iff (name : List UInt16) :
    unowned s name ↔ ∀ atom bytes count, s.atoms.get? atom = some (bytes, count) →
      varargToU16 bytes ≠ name := by
  rw [unowned, all_entries_iff]
  simp

theorem onlyName_iff :
    onlyName s atom name ↔ ∀ other, s.atomNames.get? other = some atom → other = name := by
  rw [onlyName, all_entries_iff]
  simp only [decide_eq_true_eq]
  exact ⟨fun all other known => (all other atom known).resolve_left (absurd rfl),
    fun all other a known => or_iff_not_imp_left.mpr fun same => all other (not_not.mp same ▸ known)⟩

end

end

theorem lowerName_lowerName (name : List UInt16) : lowerName (lowerName name) = lowerName name := by
  rw [lowerName, lowerName, List.map_map]
  congr 1
  funext c
  simp only [Function.comp_apply, WindowServer.lowerAsciiUnit]
  split
  next upper =>
    apply if_neg
    rintro ⟨-, small⟩
    simp only [UInt16.le_iff_toNat_le, UInt16.toNat_add, UInt16.reduceToNat] at upper small
    omega
  · rfl

variable {count : Int32} {atom : UInt32} {bytes vararg : List UInt8} {name : List UInt16}

theorem count_succ_pos (positive : 0 < count) (below : count ≠ Int32.maxValue) : 0 < count + 1 := by
  have max : Int32.maxValue.toInt = 2147483647 := by decide
  have bound : count.toInt < 2 ^ 31 := count.toInt_lt
  have apart : count.toInt ≠ Int32.maxValue.toInt := mt Int32.toInt_inj.mp below
  have zero : (0 : Int32).toInt = 0 := rfl
  have one : (1 : Int32).toInt = 1 := rfl
  rw [Int32.lt_iff_toInt_lt] at positive ⊢
  rw [Int32.toInt_add, Int.bmod_eq_of_le (by omega) (by omega)]
  omega

theorem last_count_iff (positive : 0 < count) : count - 1 ≤ 0 ↔ ¬ 1 < count := by
  have bound : count.toInt < 2 ^ 31 := count.toInt_lt
  have zero : (0 : Int32).toInt = 0 := rfl
  have one : (1 : Int32).toInt = 1 := rfl
  rw [Int32.lt_iff_toInt_lt] at positive
  rw [Int32.lt_iff_toInt_lt, Int32.le_iff_toInt_le, Int32.toInt_sub,
    Int.bmod_eq_of_le (by omega) (by omega)]
  omega

/-! ### What the requests keep -/

/-- What find returns is stored, so the last field follows from the first. -/
theorem Agree.of_maps {s : AtomServer}
    (named : ∀ name atom, s.atomNames.get? name = some atom → ∃ bytes count,
      s.atoms.get? atom = some (bytes, count) ∧ lowerName (varargToU16 bytes) = lowerName name)
    (counted : ∀ atom bytes count, s.atoms.get? atom = some (bytes, count) → 0 < count)
    (found : ∀ atom bytes count, s.atoms.get? atom = some (bytes, count) →
      s.atomNames.get? (varargToU16 bytes) = some atom)
    (range : ∀ atom bytes count, s.atoms.get? atom = some (bytes, count) →
      0xC000 ≤ atom ∧ atom ≤ 0xFFFF) : Agree s := by
  refine ⟨named, counted, found, range, fun vararg atom maxVararg finds => ?_⟩
  rw [AtomServer.handleFindAtom] at finds
  split at finds
  next known atNames =>
    cases finds
    obtain ⟨bytes, count, stored, -⟩ := named _ _ atNames
    rw [AtomServer.handleGetAtomInformation, stored]
    exact ⟨_, rfl⟩
  · cases finds

/-- The maps agree, and the next atom is one that was never stored. -/
structure Good (s : AtomServer) : Prop extends Agree s where
  fresh : ∀ atom e, s.atoms.get? atom = some e → atom < s.nextAtom
  base : 0xC000 ≤ s.nextAtom
  limit : s.nextAtom ≤ 0x10000

namespace Good
variable {s : AtomServer}

section
variable (good : Good s)
include good

theorem properties (p : Table (UInt32 × UInt32) UInt64) : Good { s with windowProperties := p } :=
  { good with informed := good.informed }

theorem unowned_of_unknown (unknown : s.atomNames.get? name = none) : unowned s name := by
  rw [unowned_iff]
  rintro atom bytes count stored rfl
  cases unknown.symm.trans (good.found atom bytes count stored)

theorem enter (left : room s) (own : varargToU16 bytes = name)
    (free : unowned s name) : Good (s.enter bytes name).2 := by
  rw [unowned_iff] at free
  replace left : s.nextAtom ≤ 0xFFFF := of_decide_eq_true left
  have next : s.nextAtom < s.nextAtom + 1 ∧ s.nextAtom + 1 ≤ 0x10000 := by
    simp only [UInt32.lt_iff_toNat_lt, UInt32.le_iff_toNat_le, UInt32.toNat_add] at left ⊢
    simp only [UInt32.reduceToNat] at left ⊢
    omega
  -- a lookup finds the new entry, or an old one under another atom
  have stored : ∀ atom e, (s.enter bytes name).2.atoms.get? atom = some e →
      atom = s.nextAtom ∧ e = (bytes, 1) ∨ s.atoms.get? atom = some e := by
    exact fun atom e has => (of_insert has).imp_right And.right
  refine ⟨.of_maps ?_ ?_ ?_ ?_, ?_, UInt32.le_trans good.base (UInt32.le_of_lt next.1), next.2⟩
  · intro other atom known
    simp only [AtomServer.enter, get?_insert] at known ⊢
    split at known
    next here =>
      cases known
      exact ⟨bytes, 1, by simp, by rw [own, here]⟩
    next different =>
      obtain ⟨old, count, has, same⟩ := good.named other atom known
      have apart : atom ≠ s.nextAtom := UInt32.ne_of_lt (good.fresh _ _ has)
      exact ⟨old, count, by rw [if_neg apart]; exact has, same⟩
  · intro atom b c has
    rcases stored atom (b, c) has with ⟨-, same⟩ | old
    · cases same
      decide
    · exact good.counted atom b c old
  · intro atom b c has
    rcases stored atom (b, c) has with ⟨rfl, same⟩ | old
    · cases same
      simp [AtomServer.enter, get?_insert, own]
    · simp only [AtomServer.enter, get?_insert]
      rw [if_neg (free atom b c old)]
      exact good.found atom b c old
  · intro atom b c has
    rcases stored atom (b, c) has with ⟨rfl, -⟩ | old
    · exact ⟨good.base, left⟩
    · exact good.range atom b c old
  · intro atom e has
    rcases stored atom e has with ⟨rfl, -⟩ | old
    · exact next.1
    · exact UInt32.lt_trans (good.fresh atom e old) next.1

theorem addName (stored : s.atoms.get? atom = some (bytes, count))
    (same : lowerName (varargToU16 bytes) = lowerName name)
    (free : ∀ other b c, s.atoms.get? other = some (b, c) → varargToU16 b = name → other = atom) :
    Good { s with atomNames := s.atomNames.insert name atom } := by
  refine ⟨.of_maps ?_ good.counted ?_ good.range, good.fresh, good.base, good.limit⟩
  · exact forall_insert good.named ⟨bytes, count, stored, same⟩
  · intro a b c has
    simp only [get?_insert]
    split
    next here => rw [free a b c has here]
    next different => exact good.found a b c has

theorem recount {count' : Int32} (stored : s.atoms.get? atom = some (bytes, count))
    (positive : 0 < count') : Good { s with atoms := s.atoms.insert atom (bytes, count') } := by
  have back : ∀ a b c, (s.atoms.insert atom (bytes, count')).get? a = some (b, c) →
      0 < c ∧ ∃ old, s.atoms.get? a = some (b, old) := by
    intro a b c has
    rcases of_insert has with ⟨rfl, same⟩ | ⟨-, before⟩
    · cases same
      exact ⟨positive, count, stored⟩
    · exact ⟨good.counted a b c before, c, before⟩
  refine ⟨.of_maps ?_ (fun a b c has => (back a b c has).1) (fun a b c has => ?_)
    (fun a b c has => ?_), fun a e has => ?_, good.base, good.limit⟩
  · intro name a known
    obtain ⟨b, c, has, same⟩ := good.named name a known
    simp only [get?_insert]
    split
    next here =>
      subst here
      cases stored.symm.trans has
      exact ⟨bytes, count', rfl, same⟩
    next other => exact ⟨b, c, has, same⟩
  · obtain ⟨-, old, has⟩ := back a b c has
    exact good.found a b old has
  · obtain ⟨-, old, has⟩ := back a b c has
    exact good.range a b old has
  · obtain ⟨-, old, has⟩ := back a e.1 e.2 has
    exact good.fresh a _ has

theorem drop (stored : s.atoms.get? atom = some (bytes, count))
    (only : onlyName s atom (varargToU16 bytes)) : Good { s with
      atoms := s.atoms.erase atom
      atomNames := s.atomNames.erase (varargToU16 bytes) } := by
  rw [onlyName_iff] at only
  have back : ∀ a e, (s.atoms.erase atom).get? a = some e → a ≠ atom ∧ s.atoms.get? a = some e :=
    fun a e has => of_erase has
  refine ⟨.of_maps ?_ (fun a b c has => good.counted a b c (back a _ has).2) (fun a b c has => ?_)
    (fun a b c has => good.range a b c (back a _ has).2),
    fun a e has => good.fresh a e (back a e has).2, good.base, good.limit⟩
  · intro name a known
    obtain ⟨different, before⟩ := of_erase known
    obtain ⟨b, c, has, same⟩ := good.named name a before
    have apart : a ≠ atom := by
      rintro rfl
      exact different (only name before)
    exact ⟨b, c, by rw [get?_erase, if_neg apart]; exact has, same⟩
  · obtain ⟨apart, old⟩ := back a (b, c) has
    have known := good.found a b c old
    simp only [get?_erase]
    split
    next here =>
      -- the name leads to one atom only
      rw [here, good.found atom bytes count stored] at known
      exact absurd (Option.some.inj known).symm apart
    next different => exact known

theorem enterText (left : room s) (text : Str)
    (free : unowned s (encodeUtf16 text)) : Good (s.enterText text).2 :=
  good.enter left (ofLeBytes_leBytes _) free

end

theorem empty (desktopTopWindow : UInt32) : Good (AtomServer.empty desktopTopWindow) where
  toAgree := .of_maps (fun _ _ known => by cases known) (fun _ _ _ stored => by cases stored)
    (fun _ _ _ stored => by cases stored) (fun _ _ _ stored => by cases stored)
  fresh _ _ stored := by cases stored
  base := UInt32.le_refl _
  limit := show (0xC000 : UInt32) ≤ 0x10000 by decide

theorem boot (desktopTopWindow : UInt32) : Good (AtomServer.boot desktopTopWindow) := by
  have none_ := empty desktopTopWindow
  have guid := none_.enterText rfl displayGuid (none_.unowned_of_unknown rfl)
  have property := guid.enterText rfl displayProperty (guid.unowned_of_unknown (by
    rfl))
  exact property.properties _

/-! ### Orderly requests -/

section
variable (good : Good s)
include good

theorem addAtom (can : canAdd s vararg) : Good (s.handleAddAtom vararg).2 := by
  rw [canAdd] at can
  rw [AtomServer.handleAddAtom]
  split
  next atom known =>
    obtain ⟨bytes, count, stored, -⟩ := good.named _ _ known
    simp only [known, stored, Option.all_some, decide_eq_true_eq] at can
    rw [modify_of_get? stored]
    exact good.recount stored (count_succ_pos (good.counted atom bytes count stored) can)
  next unknown =>
    simp only [unknown] at can
    exact good.enter can rfl (good.unowned_of_unknown unknown)

theorem deleteAtom (can : orderly s (.deleteAtom atom)) : Good (s.handleDeleteAtom atom) := by
  rw [orderly] at can
  rw [AtomServer.handleDeleteAtom]
  split
  · exact good
  next bytes count stored =>
    simp only [stored, Option.all_some, decide_eq_true_eq] at can
    split
    next last =>
      have positive := good.counted atom bytes count stored
      exact good.drop stored (can.resolve_left ((last_count_iff positive).mp last))
    next more => exact good.recount stored (Int32.not_le.mp more)

theorem classAtom (can : orderly s (.createClass atom vararg)) :
    Good (s.classAtom atom vararg).2 := by
  simp only [orderly, decide_eq_true_eq] at can
  rw [AtomServer.classAtom]
  split
  · exact good
  next given =>
    split
    · exact good
    next unknown =>
      have absent : s.atomNames.contains (varargToU16 vararg) = false := by
        rw [Table.contains, unknown]
        rfl
      simp only [given, absent, Bool.false_eq_true, false_or] at can
      have entered : Good (s.enter vararg (varargToU16 vararg)).2 :=
        good.enter can.1 rfl (good.unowned_of_unknown unknown)
      have stored : (s.enter vararg (varargToU16 vararg)).2.atoms.get? s.nextAtom =
          some (vararg, 1) := by
        simp [AtomServer.enter, get?_insert]
      refine entered.addName stored (lowerName_lowerName _).symm fun other b c has same => ?_
      rcases of_insert has with ⟨here, -⟩ | ⟨-, before⟩
      · exact here
      · exact absurd same ((unowned_iff _ _).mp can.2 other b c before)

theorem setWindowProperty {window : UInt32} {data : UInt64}
    (can : orderly s (.setWindowProperty window atom data vararg)) :
    Good (s.handleSetWindowProperty window atom data vararg) := by
  simp only [orderly, decide_eq_true_eq] at can
  rw [AtomServer.handleSetWindowProperty]
  split
  · exact good.properties _
  next given =>
    obtain ⟨known, atNames⟩ := (contains_iff _ _).mp (can.resolve_left given)
    rw [atNames]
    exact good.properties _

theorem displayData {vendor device : UInt32} (can : orderly s (.displayData vendor device)) :
    Good (s.applyDisplayData vendor device) := by
  simp only [orderly, decide_eq_true_eq] at can
  have entered := good.enterText can.1 _ can.2
  rw [AtomServer.applyDisplayData]
  split
  · exact entered.properties _
  · exact entered

end

end Good

theorem good_step {s : AtomServer} (good : Good s) {req : AtomRequest}
    (can : orderly s req) : Good (step s req) := by
  cases req with
  | addAtom | addUserAtom => exact good.addAtom can
  | deleteAtom => exact good.deleteAtom can
  | createClass => exact good.classAtom can
  | setWindowProperty => exact good.setWindowProperty can
  | displayData => exact good.displayData can

theorem atom_maps_agree_of_orderly (desktopTopWindow : UInt32) {requests : List AtomRequest}
    (all : AllSteps step (fun s req => orderly s req) (.boot desktopTopWindow) requests) :
    ∀ s ∈ states step (.boot desktopTopWindow) requests, Agree s := by
  intro s mem
  have keep : ∀ s req, Good s → orderly s req → Good (step s req) :=
    fun s req good can => good_step good can
  exact (RunRules.good_of_allSteps keep (Good.boot desktopTopWindow) all s mem).toAgree

def orderlyRequests : List AtomRequest :=
  [.addAtom [0x41, 0], .addUserAtom [0x61, 0], .addAtom [0x41, 0], .createClass 0 [0x42, 0],
    .setWindowProperty 0x20 0 7 [0x42, 0], .deleteAtom 0xC002, .deleteAtom 0xC003,
    .displayData 0x1002 0x73bf]

theorem ordinary_atoms_agree :
    AllSteps step (fun s req => orderly s req) (.boot 0x20) orderlyRequests ∧
      ∀ s ∈ states step (.boot 0x20) orderlyRequests, Agree s := by
  have all : AllSteps step (fun s req => orderly s req) (.boot 0x20) orderlyRequests := by
    decide +kernel
  exact ⟨all, atom_maps_agree_of_orderly 0x20 all⟩

def newProperty : AtomRequest := .setWindowProperty 0x20 0 1 [0x41, 0]

/-- The name of the property is found, and its atom is not known. -/
theorem property_name_dangles :
    (step (.boot 0x20) newProperty).handleFindAtom [0x41, 0] = .ok 0xC002 ∧
      (step (.boot 0x20) newProperty).handleGetAtomInformation 0xC002 64 = .error 0xC0000008 ∧
      ¬ ∀ s ∈ states step (.boot 0x20) [newProperty], Agree s := by
  refine ⟨by rfl, by rfl, fun all => ?_⟩
  have last := all (step (.boot 0x20) newProperty) (by simp [states])
  obtain ⟨info, known⟩ := last.informed [0x41, 0] 0xC002 64 (by rfl)
  cases known

end Triskelion.AtomTable
