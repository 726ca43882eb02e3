import Triskelion.LinkReplay

/-! The keys a fresh registry starts with: plain names and strings, and one link. -/

namespace Triskelion.RuntimeKeys
open KeyedTable RegistryKey RegistryWalk RegistryText RegistryLines RegistrySections List
  RegistryRuntime LinkPaths TidyTree LinkReplay

def editValue : NodeEdit → Option (Str × RegistryValue)
  | .ensure => none
  | .set name v | .setByNames name v | .push name v | .store name v | .addMissing name v =>
    some (name, v)

def PlainName (name : Str) : Prop :=
  isAscii name ∧ '\n' ∉ name ∧ name.map Char.toLower ≠ linkName

instance (name : Str) : Decidable (PlainName name) :=
  inferInstanceAs (Decidable (isAscii name ∧ '\n' ∉ name ∧ name.map Char.toLower ≠ linkName))

def PlainValue (f : Str × RegistryValue) : Prop := PlainName f.1 ∧ OneLine f.2

def PlainNode (e : NodeEdit) : Prop := ∀ f, editValue e = some f → PlainValue f

def PlainEdit (e : KeyEdit) : Prop := NicePath e.1 ∧ PlainNode e.2

instance (e : KeyEdit) : Decidable (PlainEdit e) :=
  decidable_of_iff (NicePath e.1 ∧ ∀ f ∈ editValue e.2, PlainName f.1 ∧ OneLine f.2) Iff.rfl

variable {e : NodeEdit} {sid : Str}

variable {name : Str} {v : RegistryValue}

theorem plainNode_of (about : editValue e = some (name, v))
    (named : PlainName name) (oneLine : OneLine v) : PlainNode e := by
  intro f equal
  rw [about] at equal
  exact Option.some.inj equal ▸ ⟨named, oneLine⟩

theorem plainNode_ensure : PlainNode .ensure := fun _ about => by cases about

theorem oneLine_of_type (plain : v.dataType ≠ 1) (expand : v.dataType ≠ 2) :
    OneLine v := fun string => absurd string (not_or.mpr ⟨plain, expand⟩)

section Edits
variable [CaseMap]

theorem lower_linkName : lower linkName = linkName := lower_eq rfl

variable {f : Str × RegistryValue}

theorem PlainValue.lower_ne (plain : PlainValue f) : lower f.1 ≠ lower linkName := by
  rw [lower_linkName, lower_eq plain.1.1]
  exact plain.1.2.2

theorem PlainValue.tidy (plain : PlainValue f) : TidyValue f.1 f.2 :=
  ⟨plain.1.2.1, plain.2, fun link => absurd link plain.lower_ne⟩

variable {n : RegistryKey}

theorem apply_eq : e.apply n = n ∨ ∃ f names, editValue e = some f ∧ names ⊆ n.valueNames ++ [f.1] ∧
      n.valueNames ⊆ names ∧
      e.apply n = { n with valueNames := names, values := insert lower f.1 f.2 n.values } := by
  cases e with
  | ensure => exact .inl rfl
  | set name v | setByNames name v =>
    exact .inr ⟨(name, v), _, rfl, by split <;> simp, by split <;> simp, rfl⟩
  | push name v => exact .inr ⟨(name, v), _, rfl, List.Subset.refl _, by simp, rfl⟩
  | store name v => exact .inr ⟨(name, v), n.valueNames, rfl, by simp, List.Subset.refl _, rfl⟩
  | addMissing name v =>
    rw [NodeEdit.apply]
    split
    · exact .inl rfl
    · exact .inr ⟨(name, v), _, rfl, by split <;> simp, by split <;> simp, rfl⟩

theorem children_apply (n : RegistryKey) : (e.apply n).children = n.children := by
  rcases apply_eq with same | ⟨f, names, -, -, -, equal⟩
  · rw [same]
  · rw [equal]

def LinkListed (n : RegistryKey) : Prop :=
  ∀ v, n.value linkName = some v →
    (∃ m ∈ n.valueNames, lower m = lower linkName) ∧ (valueText v).isSome

theorem LinkListed.setValue (listed : LinkListed n) {name : Str}
    {v : RegistryValue} (written : lower name = lower linkName → (valueText v).isSome) :
    LinkListed (n.setValue name v) := by
  intro w found
  rw [value_setValue] at found
  split at found
  · next link =>
    refine ⟨?_, Option.some.inj found ▸ written link.symm⟩
    rw [RegistryKey.setValue]
    cases old : n.value name with
    | some u =>
      have stored : n.value linkName = some u := by
        rw [value, link]
        exact old
      exact (listed u stored).1
    | none => exact ⟨name, by simp, link.symm⟩
  · obtain ⟨⟨m, inside, same⟩, some_⟩ := listed w found
    exact ⟨⟨m, by rw [RegistryKey.setValue]; split <;> simp [inside], same⟩, some_⟩

theorem value_apply (plain : PlainNode e) (n : RegistryKey) :
    (e.apply n).value linkName = n.value linkName := by
  rcases apply_eq with same | ⟨f, names, about, -, -, equal⟩
  · rw [same]
  · rw [equal]
    exact get_upsert_ne (Ne.symm (plain f about).lower_ne) _

theorem linkListed_apply (plain : PlainNode e) (listed : LinkListed n) :
    LinkListed (e.apply n) := by
  intro v found
  rw [value_apply plain] at found
  obtain ⟨⟨m, inside, same⟩, some_⟩ := listed v found
  refine ⟨⟨m, ?_, same⟩, some_⟩
  rcases apply_eq with same | ⟨f, names, -, -, kept, equal⟩
  · rwa [same]
  · rw [equal]
    exact kept inside

theorem tidyNode_apply (tidyValue : ∀ f, editValue e = some f → TidyValue f.1 f.2)
    (tidy : TidyNode n) : TidyNode (e.apply n) := by
  rcases apply_eq with same | ⟨f, names, about, few, -, equal⟩
  · rwa [same]
  · rw [equal]
    exact tidy.insert (tidyValue f about) few

theorem node_isSome_walkMutCreate {f : RegistryKey → RegistryKey}
    (keeps : ∀ n, (f n).children = n.children) {p path : List Str} {k : RegistryKey}
    (found : (node p k).isSome) : (node p (walkMutCreate path f k)).isSome := by
  induction path generalizing p k with
  | nil =>
    cases p with
    | nil => rfl
    | cons t tail =>
      rw [walkMutCreate, node_cons, child, keeps]
      exact found
  | cons seg rest ih =>
    cases p with
    | nil => rfl
    | cons t tail =>
      rw [node_cons] at found ⊢
      by_cases same : lower t = lower seg
      · rw [child_walkMutCreate_same same, ← child_congr same]
        cases inside : k.child t with
        | none =>
          rw [inside] at found
          cases found
        | some =>
          rw [inside] at found
          exact ih found
      · rwa [child_walkMutCreate_other same]

/-- What a plain edit keeps: tidy keys, the links, that they are listed, and every key. -/
structure Keeps (root after : RegistryKey) : Prop where
  tidy : Tidy root → Tidy after
  listed : Everywhere LinkListed root → Everywhere LinkListed after
  links : ∀ p, stored p linkName after = stored p linkName root
  keys : ∀ p, (node p root).isSome → (node p after).isSome

theorem keeps_applyEdit (root : RegistryKey) {e : KeyEdit} (plain : PlainEdit e) :
    Keeps root (applyEdit root e) where
  tidy tidy := tidy.walkMutCreate plain.1 children_apply fun n =>
    tidyNode_apply fun f about => (plain.2 f about).tidy
  listed listed := Everywhere.walkMutCreate (fun v found => by cases found)
    (fun n seg g _ here => here) children_apply (fun n => linkListed_apply plain.2) listed
    plain.1
  links p := by
    rw [applyEdit, stored_walkMutCreate children_apply, value_apply plain.2]
    split
    · next same =>
      rw [stored, ← node_congr same]
      cases node e.1 root <;> rfl
    · rfl
  keys p := node_isSome_walkMutCreate children_apply

theorem keeps_applyEdits {edits : List KeyEdit} (plain : ∀ e ∈ edits, PlainEdit e)
    (root : RegistryKey) : Keeps root (applyEdits root edits) := by
  induction edits generalizing root with
  | nil => exact ⟨id, id, fun _ => rfl, fun _ => id⟩
  | cons e rest ih =>
    have first := keeps_applyEdit root (plain e mem_cons_self)
    have later := ih (fun f mem => plain f (mem_cons_of_mem _ mem)) (applyEdit root e)
    exact ⟨later.tidy ∘ first.tidy, later.listed ∘ first.listed,
      fun p => (later.links p).trans (first.links p), fun p => later.keys p ∘ first.keys p⟩

end Edits

theorem node_of_edit [CaseMap] {edits : List KeyEdit} (plain : ∀ e ∈ edits, PlainEdit e)
    {e : KeyEdit} (mem : e ∈ edits) (root : RegistryKey) :
    (node e.1 (applyEdits root edits)).isSome := by
  obtain ⟨front, rest, rfl⟩ := append_of_mem mem
  rw [applyEdits, foldl_append, foldl_cons]
  refine (keeps_applyEdits (fun f inside => plain f (by simp [inside])) _).keys e.1 ?_
  rw [applyEdit, node_walkMutCreate_self]
  rfl

theorem node_of_prefix [CaseMap] {p q : List Str} (front : p <+: q) {k : RegistryKey}
    (found : (node q k).isSome) : (node p k).isSome := by
  obtain ⟨rest, rfl⟩ := front
  rw [node_append] at found
  cases inside : node p k with
  | none =>
    rw [inside] at found
    cases found
  | some => rfl

theorem mem_splitOn {c : Char} {s seg : Str} (mem : seg ∈ s.splitOn c) : c ∉ seg ∧ seg ⊆ s := by
  induction s generalizing seg with
  | nil =>
    rw [splitOn_nil, mem_singleton] at mem
    subst mem
    simp
  | cons d s ih =>
    rw [splitOn_cons_eq_if_modifyHead] at mem
    split at mem
    · rcases mem_cons.mp mem with rfl | later
      · simp
      · exact ⟨(ih later).1, subset_cons_of_subset _ (ih later).2⟩
    · next other =>
      obtain ⟨first, rest, equal⟩ := exists_cons_of_ne_nil (splitOn_ne_nil c s)
      rw [equal] at mem ih
      rcases mem_cons.mp mem with rfl | later
      · obtain ⟨absent, inside⟩ := ih mem_cons_self
        refine ⟨?_, cons_subset_cons _ inside⟩
        rw [mem_cons, not_or]
        exact ⟨fun same => other (by simp [same]), absent⟩
      · obtain ⟨absent, inside⟩ := ih (mem_cons_of_mem _ later)
        exact ⟨absent, subset_cons_of_subset _ inside⟩

theorem isAscii_append (s t : Str) : isAscii (s ++ t) = (isAscii s && isAscii t) := all_append

def PlainPath (path : Str) : Prop := isAscii path ∧ '\n' ∉ path ∧ ']' ∉ path

instance (path : Str) : Decidable (PlainPath path) :=
  inferInstanceAs (Decidable (isAscii path ∧ '\n' ∉ path ∧ ']' ∉ path))

theorem PlainPath.append {s t : Str} (first : PlainPath s) (second : PlainPath t) :
    PlainPath (s ++ t) := by
  refine ⟨?_, ?_, ?_⟩
  · rw [isAscii_append, first.1, second.1]
    rfl
  · simp [first.2.1, second.2.1]
  · simp [first.2.2, second.2.2]

theorem nicePath_splitPath {path : Str} (plain : PlainPath path) : NicePath (splitPath path) := by
  intro seg mem
  obtain ⟨inside, nonempty⟩ := mem_filter.mp mem
  obtain ⟨slash, chars⟩ := mem_splitOn inside
  obtain ⟨ascii, noBreak, noBracket⟩ := plain
  refine ⟨by simpa using nonempty, ?_, fun bad => noBreak (chars bad),
    fun bad => noBracket (chars bad), slash⟩
  rw [isAscii, all_eq_true] at ascii ⊢
  exact fun c here => ascii c (chars here)

theorem plainEdits_under {path : Str} (plainPath : PlainPath path) {edits : List NodeEdit}
    (plain : ∀ e ∈ edits, PlainNode e) {e : KeyEdit} (mem : e ∈ under path edits) :
    PlainEdit e := by
  obtain ⟨edit, inside, rfl⟩ := mem_map.mp mem
  exact ⟨nicePath_splitPath plainPath, plain edit inside⟩

def isSidChar (c : Char) : Bool := c.isAlphanum || c == '-'

def PlainSid (sid : Str) : Prop := sid ≠ [] ∧ sid.all isSidChar

instance (sid : Str) : Decidable (PlainSid sid) :=
  inferInstanceAs (Decidable (sid ≠ [] ∧ sid.all isSidChar))

structure PlainClass (c : ComClass) : Prop where
  clsid : PlainPath c.clsid
  path : '\n' ∉ c.dllPath
  model : '\n' ∉ c.threading

variable {l : Str}

-- A literal is `String.ofList` of its characters, which `decide` then need not decode.
theorem noBreak_literal (plain : '\n' ∉ l) : '\n' ∉ (String.ofList l).toList := by
  rwa [String.toList_ofList]

theorem plainName_literal (plain : PlainName l) : PlainName (String.ofList l).toList := by
  rwa [String.toList_ofList]

theorem plainPath_literal (plain : PlainPath l) : PlainPath (String.ofList l).toList := by
  rwa [String.toList_ofList]

theorem plainNode_text {text : Str}
    (about : editValue e = some ((String.ofList name).toList, regSz (String.ofList text).toList))
    (named : PlainName name) (plain : '\n' ∉ text) : PlainNode e :=
  plainNode_of about (plainName_literal named) (oneLine_string 1 (noBreak_literal plain))

theorem plainEdits_comClass {c : ComClass} (plain : PlainClass c) {e : KeyEdit}
    (mem : e ∈ comClassEdits c) : PlainEdit e := by
  have path : PlainPath ("Registry\\Machine\\Software\\Classes\\CLSID\\".toList ++ c.clsid ++
      "\\InprocServer32".toList) :=
    (PlainPath.append (plainPath_literal (by decide)) plain.clsid).append
      (plainPath_literal (by decide))
  refine plainEdits_under path (fun f inside => ?_) mem
  simp only [mem_cons, not_mem_nil, or_false] at inside
  rcases inside with rfl | rfl
  · exact plainNode_of rfl (by decide) (oneLine_string 1 plain.path)
  · exact plainNode_of rfl (plainName_literal (by decide)) (oneLine_string 1 plain.model)

theorem toNat_of_isAlphanum {c : Char} (alnum : c.isAlphanum) : c.toNat < 128 := by
  delta Char.isAlphanum Char.isAlpha Char.isUpper Char.isLower Char.isDigit at alnum
  simp only [Bool.or_eq_true, Bool.and_eq_true, decide_eq_true_eq, ge_iff_le,
    UInt32.le_iff_toNat_le] at alnum
  rw [Char.toNat]
  have bounds : 'z'.val.toNat = 122 ∧ 'Z'.val.toNat = 90 ∧ '9'.val.toNat = 57 := by decide
  omega

theorem plainPath_sid (plain : PlainSid sid) : PlainPath sid := by
  have chars := all_eq_true.mp plain.2
  refine ⟨all_eq_true.mpr fun c mem => decide_eq_true ?_, fun mem => ?_, fun mem => ?_⟩
  · rcases Bool.or_eq_true_iff.mp (chars c mem) with alnum | dash
    · exact toNat_of_isAlphanum alnum
    · rw [eq_of_beq dash]
      decide
  all_goals exact absurd (chars _ mem) (by decide)

/-- The keys that do not depend on the user or the table of classes. -/
theorem plain_fixedKeys : ∀ e ∈ keysAfterLink [] [], PlainEdit e := by
  decide +kernel

theorem plain_keysAfterLink {comClasses : List ComClass} (classes : ∀ c ∈ comClasses, PlainClass c)
    (plain : PlainSid sid) : ∀ e ∈ keysAfterLink comClasses sid, PlainEdit e := by
  have user : ∀ rest, PlainPath rest → PlainPath ("Registry\\User\\".toList ++ sid ++ rest) :=
    fun rest => (PlainPath.append (plainPath_literal (by decide)) (plainPath_sid plain)).append
  have fixed := plain_fixedKeys
  simp only [keysAfterLink, applyDisplayDriver, forall_mem_append, and_assoc] at fixed ⊢
  obtain ⟨-, video, device, class_, adapter, null, pci, monitor, key, -, windows, groups, services, -⟩ :=
    fixed
  refine ⟨fun e => ?_, video, device, class_, adapter, null, pci, monitor, key, fun e => ?_, windows,
    groups, services, fun e mem => ?_⟩
  · exact plainEdits_under (user _ (plainPath_literal (by decide)))
      (forall_mem_singleton.mpr (plainNode_text rfl (by decide) (by decide)))
  · exact plainEdits_under (user _ (plainPath_literal (by decide)))
      (forall_mem_singleton.mpr (plainNode_text rfl (by decide) (by decide)))
  · obtain ⟨c, row, inside⟩ := mem_flatMap.mp mem
    exact plainEdits_comClass (classes c row) inside

theorem splitPath_current : splitPath currentControlSetPath = currentPath := by
  decide +kernel

theorem splitPath_class : controlSetPath <+: splitPath classPath := by
  decide +kernel

theorem class_mem (comClasses : List ComClass) :
    ∃ e ∈ keysAfterLink comClasses sid, e.1 = splitPath classPath := by
  refine ⟨(splitPath classPath, .push "Class".toList (regSz "Display".toList)), ?_, rfl⟩
  simp only [keysAfterLink, mem_append]
  iterate 10 refine .inl ?_
  exact .inr (mem_singleton_self _)

section Fresh
variable [CaseMap]

structure Fresh (root : RegistryKey) : Prop where
  tidy : Tidy root
  listed : Everywhere LinkListed root
  current : stored currentPath linkName root = some currentControlSetLink
  only : ∀ p v, stored p linkName root = some v →
    p.map lower = currentPath.map lower ∧ v = currentControlSetLink
  control : (node controlSetPath root).isSome

theorem tidyValue_current : TidyValue linkValueName currentControlSetLink :=
  ⟨noBreak_literal (by decide), oneLine_of_type (by decide) (by decide), fun _ t target => by
    rw [← Option.some.inj target]
    decide⟩

theorem lower_linkValueName : lower linkName = lower linkValueName := by
  rw [lower_linkName, lower_eq (by decide)]
  decide

def linkedRoot : RegistryKey :=
  applyEdit new (currentPath, .addMissing linkValueName currentControlSetLink)

theorem stored_linkedRoot (p : List Str) : stored p linkName linkedRoot =
      if currentPath.map lower = p.map lower then some currentControlSetLink else none := by
  rw [linkedRoot, applyEdit, stored_walkMutCreate children_apply]
  split
  · exact value_setValue_same lower_linkValueName _ _
  · cases p <;> rfl

theorem freshRegistry_root (comClasses : List ComClass) :
    (freshRegistry comClasses sid).root = applyEdits linkedRoot (keysAfterLink comClasses sid) := by
  rw [freshRegistry, initRuntimeKeys, under, splitPath_current, applyEdits, applyEdits,
    foldl_append, map_singleton, foldl_cons, foldl_nil, linkedRoot]

theorem fresh_root {comClasses : List ComClass} (classes : ∀ c ∈ comClasses, PlainClass c)
    (plain : PlainSid sid) : Fresh (freshRegistry comClasses sid).root := by
  have edits := plain_keysAfterLink classes plain
  have later := keeps_applyEdits edits linkedRoot
  rw [freshRegistry_root]
  refine ⟨later.tidy ?_, later.listed ?_, ?_, fun p v found => ?_, ?_⟩
  · refine tidy_new.walkMutCreate (by decide) children_apply fun n => tidyNode_apply ?_
    rintro f about
    exact Option.some.inj about ▸ tidyValue_current
  · refine Everywhere.walkMutCreate (fun v found => by cases found) (fun n seg g _ here => here)
      children_apply (fun n listed => ?_) (k := new) ?_ (by decide)
    · rw [NodeEdit.apply]
      split
      · exact listed
      · exact listed.setValue fun _ => rfl
    · rintro (_ | ⟨t, q⟩) m inside
      · subst inside
        exact fun v found => by cases found
      · obtain ⟨d, mem, -⟩ := inside
        cases mem
  · rw [later.links, stored_linkedRoot, if_pos rfl]
  · rw [later.links, stored_linkedRoot] at found
    split at found
    · next same => exact ⟨same.symm, (Option.some.inj found).symm⟩
    · cases found
  · obtain ⟨e, mem, path⟩ := class_mem comClasses
    exact node_of_prefix (path ▸ splitPath_class) (node_of_edit edits mem linkedRoot)

end Fresh
end Triskelion.RuntimeKeys
