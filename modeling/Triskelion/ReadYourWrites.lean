import Triskelion.RegistryOps

/-! Reads after writes through one key handle. A write goes to the key at the
handle's path; a read goes to the last key that the links from there lead to. -/

namespace Triskelion.ReadYourWrites
open KeyedTable RegistryKey RegistryWalk RegName

section
variable [CaseMap]

inductive ValueWrite
  | set (dataType : UInt32) (data : List UInt8)
  | delete

def ValueWrite.expected : ValueWrite → Option RegistryValue
  | set dataType data => some ⟨dataType, data⟩
  | delete => none

section
variable (r : Registry) (hkey : UInt32)

def applyWrite (name : List UInt8) : ValueWrite → Bool × Registry
  | .set dataType data => (true, r.setValue hkey name dataType data)
  | .delete => r.deleteValue hkey name

section
variable (path : List Str) (name : List UInt8) (w : ValueWrite)
include w

/-- The write is read back under every spelling of its name, and no other stored
value has changed. -/
def ReadsBack : Prop :=
  (applyWrite r hkey name w).1 → (∀ name', lower (fromUtf16le name') = lower (fromUtf16le name) →
      (applyWrite r hkey name w).2.getValue hkey name' =
        .ok (w.expected.map fun v => (v.dataType, v.data))) ∧
    ∀ q m, ¬ (q.map lower = path.map lower ∧ lower m = lower (fromUtf16le name)) →
      stored q m (applyWrite r hkey name w).2.root = stored q m r.root

/-- With the write in place, the links from the handle's path lead back to that path
or to a key that held the expected value before, and no path on the way splits a
character. -/
def ReadsWhereWritten : Prop :=
  (applyWrite r hkey name w).1 →
    (∀ p ∈ visits (applyWrite r hkey name w).2.root (4 - r.linkDepth.toNat) path,
      ¬ SplitsChar (applyWrite r hkey name w).2.root p) ∧
    ((readPath (applyWrite r hkey name w).2.root (4 - r.linkDepth.toNat) path).map lower =
        path.map lower ∨
      stored (readPath (applyWrite r hkey name w).2.root (4 - r.linkDepth.toNat) path)
        (fromUtf16le name) r.root = w.expected)

end

end

def ValueWrite.edit (name : Str) : ValueWrite → RegistryKey → RegistryKey
  | set dataType data => .setValue name ⟨dataType, data⟩
  | delete => .removeValue name

variable {m : Str}

variable {name : Str} {w : ValueWrite}

theorem ValueWrite.value_edit_other (name : Str) (w : ValueWrite) (other : lower m ≠ lower name)
    (n : RegistryKey) : (w.edit name n).value m = n.value m := by
  cases w with
  | set => exact value_setValue_other other _ n
  | delete => exact congrArg _ (find_erase_ne other)

variable {path : List Str}

theorem applyWrite_root {r : Registry} {hkey : UInt32}
    (isOpen : r.openKeys.get? hkey = some path) {name : List UInt8}
    (done : (applyWrite r hkey name w).1) : (applyWrite r hkey name w).2.root =
        walkMutCreate path (w.edit (fromUtf16le name)) r.root ∧
      (applyWrite r hkey name w).2.openKeys = r.openKeys ∧
      (applyWrite r hkey name w).2.linkDepth = r.linkDepth := by
  cases w with
  | set => simp [applyWrite, Registry.setValue, isOpen, ValueWrite.edit]
  | delete =>
    rw [applyWrite, Registry.deleteValue, isOpen] at done ⊢
    dsimp only at done ⊢
    cases found : node path r.root with
    | none => simp [found] at done
    | some =>
      rw [found] at done
      dsimp only at done ⊢
      split at done
      · next there => simp [there, ValueWrite.edit]
      · cases done

variable {root : RegistryKey}

theorem stored_edit_other
    {q : List Str} (other : ¬ (q.map lower = path.map lower ∧ lower m = lower name)) :
    stored q m (walkMutCreate path (w.edit name) root) = stored q m root := by
  by_cases same : q.map lower = path.map lower
  · have off : lower m ≠ lower name := fun equal => other ⟨same, equal⟩
    rw [stored, stored, node_congr same, node_congr same, node_walkMutCreate_self,
      Option.bind_some, w.value_edit_other name off]
    cases node path root <;> rfl
  · exact stored_walkMutCreate_other (fun n => by cases w <;> rfl) same m root

theorem stored_edit_self
    {q : List Str} (same : q.map lower = path.map lower) (spelled : lower m = lower name) :
    stored q m (walkMutCreate path (w.edit name) root) = w.expected := by
  rw [stored, node_congr same, node_walkMutCreate_self, Option.bind_some]
  cases w with
  | set => exact value_setValue_same spelled _ _
  | delete =>
    rw [ValueWrite.edit, value, spelled, KeyedTable.get, removeValue, find_erase_self]
    rfl

theorem stored_congr (same : lower m = lower name) (k : RegistryKey) :
    stored path m k = stored path name k := by
  exact congrArg _ (funext fun n => by rw [value, value, same])

/-- A read returns what is stored at the end of the links, or panics on the way. -/
theorem getValue_eq {r : Registry} {hkey : UInt32}
    (isOpen : r.openKeys.get? hkey = some path) (name : List UInt8) :
    (∀ p ∈ visits r.root (4 - r.linkDepth.toNat) path, ¬ SplitsChar r.root p) ∧
        r.getValue hkey name = .ok ((stored (readPath r.root (4 - r.linkDepth.toNat) path)
          (fromUtf16le name) r.root).map fun v => (v.dataType, v.data)) ∨
      (∃ p ∈ visits r.root (4 - r.linkDepth.toNat) path, SplitsChar r.root p) ∧
        ∃ p, r.getValue hkey name = .error p := by
  rcases walkFrom_returns r.root (4 - r.linkDepth.toNat) r.linkDepth path with
    ⟨-, -, clean⟩ | ⟨⟨p, panicked⟩, split⟩
  · left
    refine ⟨clean, ?_⟩
    have result := walkFrom_readPath r.root (4 - r.linkDepth.toNat) r.linkDepth path clean
    rw [Registry.getValue, Registry.readKey, isOpen]
    dsimp only
    rw [Registry.walk, walk, result]
    rfl
  · right
    refine ⟨split, p, ?_⟩
    rw [Registry.getValue, Registry.readKey, isOpen]
    dsimp only
    rw [Registry.walk, walk, panicked]
    rfl

theorem readsBack_iff {r : Registry} {hkey : UInt32} {path : List Str}
    (isOpen : r.openKeys.get? hkey = some path) (name : List UInt8) (w : ValueWrite) :
    ReadsBack r hkey path name w ↔ ReadsWhereWritten r hkey path name w := by
  refine imp_congr_right fun done => ?_
  obtain ⟨tree, handles, depth⟩ := applyWrite_root isOpen done
  have still : (applyWrite r hkey name w).2.openKeys.get? hkey = some path := by
    rw [handles, isOpen]
  have read := fun n => getValue_eq still n
  rw [depth] at read
  constructor
  · rintro ⟨reads, -⟩
    rcases read name with ⟨clean, value⟩ | ⟨-, p, panicked⟩
    · refine ⟨clean, or_iff_not_imp_left.mpr fun elsewhere => ?_⟩
      rw [reads name rfl, tree, stored_edit_other (fun h => elsewhere (tree ▸ h.1))]
        at value
      rw [tree]
      apply Option.map_injective (fun a b h => ?_) (Except.ok.inj value.symm)
      cases a; cases b; simpa using h
    · rw [reads name rfl] at panicked
      cases panicked
  · rintro ⟨clean, place⟩
    refine ⟨fun name' spelled => ?_, fun q m other => ?_⟩
    · rcases read name' with ⟨-, value⟩ | ⟨⟨p, mem, split⟩, -⟩
      · rw [value, tree]
        rw [tree] at place
        by_cases own : (readPath (walkMutCreate path (w.edit (fromUtf16le name)) r.root)
            (4 - r.linkDepth.toNat) path).map lower = path.map lower
        · rw [stored_edit_self own spelled]
        · rw [stored_congr spelled, stored_edit_other fun h => own h.1, place.resolve_left own]
      · exact absurd split (clean p mem)
    · rw [tree, stored_edit_other other]

end

def utf16Name (s : String) : List UInt8 := Utf16Text.leBytes (Utf16Text.encodeUtf16 s.toList)

def createdAscii (r : Registry) (name : String) : Registry :=
  match @Registry.createKey asciiCase r 0 (utf16Name name) with
  | .ok (_, after) => after
  | .error _ => r

def oneKey : Registry := createdAscii (.empty []) "a"

def linkedKey : Registry :=
  @Registry.setValue asciiCase (createdAscii oneKey "b") 1 (utf16Name "SymbolicLinkValue") 6
    (utf16Name "b")

theorem readsBack_plain_key : oneKey.openKeys.get? 1 = some ["a".toList] ∧
      @ReadsBack asciiCase oneKey 1 ["a".toList] (utf16Name "x") (.set 1 [0x31, 0]) := by
  refine ⟨rfl, (@readsBack_iff asciiCase _ _ _ rfl _ _).mpr fun _ => ⟨fun p mem => ?_, .inl rfl⟩⟩
  obtain rfl := List.mem_singleton.mp mem
  rcases @descend_eq asciiCase _ _ with ⟨-, clean⟩ | ⟨panicked, -⟩
  · exact clean
  · cases panicked

theorem readsBack_fails_at_link : linkedKey.openKeys.get? 1 = some ["a".toList] ∧
      ¬ @ReadsBack asciiCase linkedKey 1 ["a".toList] (utf16Name "x") (.set 1 [0x31, 0]) := by
  refine ⟨rfl, fun back => ?_⟩
  have read := (back rfl).1 (utf16Name "x") rfl
  cases read

end Triskelion.ReadYourWrites
