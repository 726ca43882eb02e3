import Triskelion.RegistryOps
import Triskelion.RunRules

/-! The write counter of the registry, which clients are given as the time of the last write.
Creating a key and setting a value advance it before they look whether there is anything to
write, and deleting does not advance it. -/

namespace Triskelion.WriteStamp
open RunRules RegistryKey

inductive Operation
  | createKey (parent : UInt32) (name : List UInt8)
  | openKey (parent : UInt32) (name : List UInt8)
  | setValue (hkey : UInt32) (name : List UInt8) (dataType : UInt32) (data : List UInt8)
  | deleteValue (hkey : UInt32) (name : List UInt8)
  | deleteKey (hkey : UInt32)
  /-- A walk has left this value of `DEPTH`. -/
  | walked (depth : UInt8)

section
variable [CaseMap]

section
variable (r : Registry)

/-- Whether the operation changed the tree, as it reports itself, and the registry after it. -/
def perform : Operation → Bool × Registry
  | .createKey parent name =>
    match r.createKey parent name with
    | .ok ((_, created), after) => (created, after)
    | .error _ => (false, { r with writeSeq := r.writeSeq + 1 })
  | .openKey parent name =>
    match r.openKey parent name with
    | .ok (_, after) => (false, after)
    | .error _ => (false, r)
  | .setValue hkey name dataType data =>
    ((r.openKeys.get? hkey).isSome, r.setValue hkey name dataType data)
  | .deleteValue hkey name => r.deleteValue hkey name
  | .deleteKey hkey =>
    match r.deleteKey hkey with
    | .ok done => done
    | .error _ => (false, r)
  | .walked depth => (false, { r with linkDepth := depth })

def step (op : Operation) : Registry := (perform r op).2

def Stamped (op : Operation) : Prop :=
  if (perform r op).1 then r.writeSeq < (step r op).writeSeq
  else (step r op).writeSeq = r.writeSeq

/-- A key is created where there is none, a value set through an open handle, each with room in
the counter, and nothing that is there is deleted. -/
def Fits : Operation → Prop
  | .createKey parent name =>
    r.walk (r.requestPath parent name) = .ok none ∧ r.writeSeq + 1 ≠ 0
  | .setValue hkey _ _ _ => (r.openKeys.get? hkey).isSome ∧ r.writeSeq + 1 ≠ 0
  | .deleteValue hkey name => ∀ path, r.openKeys.get? hkey = some path →
      stored path (RegName.fromUtf16le name) r.root = none
  | .deleteKey hkey => ∀ path n, r.openKeys.get? hkey = some path → path ≠ [] →
      r.walk path = .ok (some n) → (node path.dropLast r.root).isSome → n.children ≠ []
  | .openKey _ _ | .walked _ => True

theorem stamped_iff_fits (op : Operation) : Stamped r op ↔ Fits r op := by
  have grows : r.writeSeq + 1 ≠ r.writeSeq := by grind
  have room : r.writeSeq < r.writeSeq + 1 ↔ r.writeSeq + 1 ≠ 0 := by grind
  unfold Stamped step
  cases op with
  | createKey parent name =>
    rcases walked : r.walk (r.requestPath parent name) with _ | _ | _ <;>
      simp [perform, Fits, Registry.createKey, Registry.openAt, Except.map, walked, grows, room]
  | openKey parent name =>
    rcases walked : r.walk (r.requestPath parent name) with _ | _ | _ <;>
      simp [perform, Fits, Registry.openKey, Registry.openAt, Except.map, walked]
  | setValue hkey =>
    cases found : r.openKeys.get? hkey <;>
      simp [perform, Fits, Registry.setValue, found, grows, room]
  | deleteValue hkey name =>
    rcases found : r.openKeys.get? hkey with _ | path
    · simp [perform, Fits, Registry.deleteValue, found]
    rcases inside : node path r.root with _ | n
    · simp [perform, Fits, Registry.deleteValue, stored, found, inside]
    cases held : n.value (RegName.fromUtf16le name) <;>
      simp [perform, Fits, Registry.deleteValue, stored, found, inside, held]
  | deleteKey hkey =>
    simp only [perform, Fits, Registry.deleteKey, Except.map]
    grind
  | walked => simp [perform, Fits]

/-- The counter tells the changes of a run apart exactly if each operation fits. -/
theorem changes_stamped_iff (ops : List Operation) :
    AllSteps step Stamped r ops ↔ AllSteps step Fits r ops := by
  induction ops generalizing r with
  | nil => exact Iff.rfl
  | cons op later ih => exact and_congr (stamped_iff_fits r op) (ih _)

end

end

/-- A key is created and deleted, and the counter advances once. -/
theorem deletion_not_stamped : ¬ @AllSteps _ _ (@step asciiCase) (@Stamped asciiCase) (.empty [])
    [.createKey 0 [0x61, 0], .deleteKey 1] := by
  intro all
  have deleted := all.2.1
  unfold Stamped at deleted
  exact absurd deleted (by decide)

end Triskelion.WriteStamp
