import Triskelion.RegistryWalk
import Mathlib.Data.List.Sort

/-! `Registry`: open key handles over the tree, and the operations clients call.
Creating and writing go along the stored path as it is; reading goes through
`walk`, which can panic and can end at another key. -/

namespace Triskelion
open KeyedTable RegistryKey RegistryWalk Utf16Text

/-- The state of `Registry`, with the static `DEPTH` of `walk` beside it. -/
structure Registry where
  root : RegistryKey
  openKeys : Table UInt32 (List Str)
  nextHkey : UInt32
  writeSeq : UInt64
  userSid : Str
  linkDepth : UInt8

namespace RegistryKey
variable [CaseMap]

def setValue (name : Str) (v : RegistryValue) (n : RegistryKey) : RegistryKey :=
  { n with
    valueNames := if (n.value name).isSome then n.valueNames else n.valueNames ++ [name]
    values := insert lower name v n.values }

def removeValue (name : Str) (n : RegistryKey) : RegistryKey :=
  { n with
    values := erase lower (lower name) n.values
    valueNames := n.valueNames.filter fun m => lower m ≠ lower name }

def removeChild (seg : Str) (n : RegistryKey) : RegistryKey :=
  { n with children := erase lower (lower seg) n.children }

def sortedChildren (n : RegistryKey) : List (Str × RegistryKey) :=
  n.children.insertionSort fun a b => strLe (lower a.1) (lower b.1)

variable {n : RegistryKey}

theorem child_removeChild (seg t : Str) :
    (n.removeChild seg).child t = if lower t = lower seg then none else n.child t := by
  rw [child, KeyedTable.get, removeChild]
  split_ifs with same
  · rw [same, find_erase_self]
    rfl
  · rw [find_erase_ne same]
    rfl

variable {name m : Str}

theorem value_setValue_same (same : lower m = lower name) (v : RegistryValue)
    (n : RegistryKey) : (n.setValue name v).value m = some v := by
  rw [value, same]
  exact get_upsert_self name _

theorem value_setValue_other (other : lower m ≠ lower name) (v : RegistryValue)
    (n : RegistryKey) : (n.setValue name v).value m = n.value m :=
  get_upsert_ne other _

end RegistryKey

namespace Registry

def empty (userSid : Str) : Registry := ⟨RegistryKey.new, .empty, 1, 1, userSid, 0⟩

variable [CaseMap]

section
variable (r : Registry) (parent : UInt32)

def resolveParent : List Str :=
  if parent = 0 then [] else (r.openKeys.get? parent).getD []

section
variable (name : List UInt8)

def requestPath : List Str :=
  followSymlink r.root (r.resolveParent parent ++ parseKeyPath name)

def walk (path : List Str) : Except Panic (Option RegistryKey) :=
  (RegistryWalk.walk r.root r.linkDepth path).result

def openAt (path : List Str) : Registry :=
  { r with openKeys := r.openKeys.insert r.nextHkey path, nextHkey := r.nextHkey + 1 }

def createKey : Except Panic ((UInt32 × Bool) × Registry) :=
  let path := r.requestPath parent name
  (r.walk path).map fun existed =>
    ((r.nextHkey, existed.isNone),
      { r with root := walkMutCreate path id r.root, writeSeq := r.writeSeq + 1 }.openAt path)

def openKey : Except Panic (Option UInt32 × Registry) :=
  let path := r.requestPath parent name
  (r.walk path).map fun
    | some _ => (some r.nextHkey, r.openAt path)
    | none => (none, r)

end

section
variable (hkey : UInt32)

def readKey : Except Panic (Option RegistryKey) :=
  match r.openKeys.get? hkey with
  | none => .ok none
  | some path => r.walk path

section
variable (name : List UInt8)

def getValue : Except Panic (Option (UInt32 × List UInt8)) :=
  (r.readKey hkey).map fun found =>
    (found.bind fun n => n.value (RegName.fromUtf16le name)).map fun v => (v.dataType, v.data)

def setValue (dataType : UInt32) (data : List UInt8) : Registry :=
  let r := { r with writeSeq := r.writeSeq + 1 }
  match r.openKeys.get? hkey with
  | none => r
  | some path =>
    { r with
      root := walkMutCreate path (.setValue (RegName.fromUtf16le name) ⟨dataType, data⟩) r.root }

/-- Whether a value was deleted; the path is only walked along existing keys. -/
def deleteValue : Bool × Registry :=
  match r.openKeys.get? hkey with
  | none => (false, r)
  | some path =>
    match node path r.root with
    | none => (false, r)
    | some n =>
      if (n.value (RegName.fromUtf16le name)).isSome then
        (true, { r with
          root := walkMutCreate path (.removeValue (RegName.fromUtf16le name)) r.root })
      else (false, r)

end

/-- Subkey count, value count, longest value name and longest data, in bytes. -/
def queryKey : Except Panic (Option (Nat × Nat × Nat × Nat)) :=
  (r.readKey hkey).map fun found => found.map fun n =>
    (n.children.length, n.values.length,
      (n.valueNames.map fun m => (encodeUtf16 m).length * 2).foldl max 0,
      (n.values.map fun e => e.2.data.length).foldl max 0)

def enumKey (index : Nat) : Except Panic (Option (List UInt8 × Nat × Nat)) :=
  (r.readKey hkey).map fun found => found.bind fun n =>
    n.sortedChildren[index]?.map fun e =>
      (leBytes (encodeUtf16 e.1), e.2.children.length, e.2.values.length)

def enumValue (index : Nat) : Except Panic (Option (List UInt8 × UInt32 × List UInt8)) :=
  (r.readKey hkey).map fun found => found.bind fun n =>
    n.valueNames[index]?.bind fun name =>
      (n.value name).map fun v => (leBytes (encodeUtf16 name), v.dataType, v.data)

/-- Whether the key was deleted: only one without subkeys, and never the root. -/
def deleteKey : Except Panic (Bool × Registry) :=
  match r.openKeys.get? hkey with
  | none => .ok (false, r)
  | some path =>
    if last : path = [] then .ok (false, r)
    else (r.walk path).map fun
      | none => (false, r)
      | some n =>
        if n.children ≠ [] then (false, r)
        else match node path.dropLast r.root with
          | none => (false, r)
          | some _ => (true, { r with
              root := walkMutCreate path.dropLast
                (fun m => { m with children := erase lower (lower (path.getLast last)) m.children })
                r.root })

end

/-! ### Changes keep the handles -/

variable {hkey : UInt32} {name : List UInt8}

theorem openKeys_setValue (dataType : UInt32) (data : List UInt8) :
    (r.setValue hkey name dataType data).openKeys = r.openKeys := by
  cases found : r.openKeys.get? hkey <;> simp [setValue, found]

theorem openKeys_deleteValue : (r.deleteValue hkey name).2.openKeys = r.openKeys := by
  unfold deleteValue
  repeat' split
  all_goals rfl

end

/-- Nothing is deleted, or the last part of the path of the handle below the key that the rest of
it names. -/
theorem deleteKey_cases {r : Registry} {hkey : UInt32} {gone : Bool × Registry}
    (done : r.deleteKey hkey = .ok gone) :
    gone = (false, r) ∨ ∃ path n, ∃ below : path ≠ [], r.openKeys.get? hkey = some path ∧
      r.walk path = .ok (some n) ∧ n.children = [] ∧ (node path.dropLast r.root).isSome ∧
      gone = (true, { r with
        root := walkMutCreate path.dropLast (.removeChild (path.getLast below)) r.root }) := by
  unfold deleteKey at done
  split at done
  · cases done
    exact .inl rfl
  next path found =>
  split at done
  · cases done
    exact .inl rfl
  next below =>
  cases walked : r.walk path with
  | error => simp [walked, Except.map] at done
  | ok existed =>
    simp only [walked, Except.map] at done
    cases done
    cases existed with
    | none => exact .inl rfl
    | some n =>
      dsimp only
      split
      · exact .inl rfl
      next bare =>
      split
      · exact .inl rfl
      next inside =>
      exact .inr ⟨path, n, below, found, walked, not_not.mp bare, by simp [inside], rfl⟩

end Registry
end Triskelion
