import Triskelion.RegistryRuntime
import Triskelion.RunRules

/-! The ordered list of value names of a key against its map of values, over every
operation that changes the tree. -/

namespace Triskelion.ValueIndex
open KeyedTable RegistryKey RegistryWalk RegistryText RegistryRuntime RunRules Utf16Text List
  Registry

variable {hkey : UInt32} {n : RegistryKey} {r : Registry}

section
variable [CaseMap]

/-- The list names every stored value once, and nothing else. -/
structure Indexed (n : RegistryKey) : Prop where
  unique : (keys lower n.values).Nodup
  distinct : (n.valueNames.map lower).Nodup
  exact : ∀ g, g ∈ n.valueNames.map lower ↔ g ∈ keys lower n.values

variable {name : Str} {root : RegistryKey}

theorem value_isSome : (n.value name).isSome ↔ lower name ∈ keys lower n.values := get_isSome

theorem Indexed.new : Indexed new :=
  ⟨nodup_nil, nodup_nil, fun _ => Iff.rfl⟩

theorem Indexed.graft (n : RegistryKey) (seg : Str) (g : Option RegistryKey → RegistryKey)
    (indexed : Indexed n) : Indexed { n with children := upsert lower seg g n.children } :=
  { indexed with }

variable {v : RegistryValue}

theorem Indexed.overwrite (indexed : Indexed n) (stored : (n.value name).isSome) :
    Indexed { n with values := insert lower name v n.values } := by
  have same : keys lower (insert lower name v n.values) = keys lower n.values := by
    rw [KeyedTable.insert, keys_upsert, if_pos (value_isSome.mp stored)]
  exact ⟨same ▸ indexed.unique, indexed.distinct, fun g => same ▸ indexed.exact g⟩

theorem Indexed.add (indexed : Indexed n) (absent : n.value name = none) : Indexed { n with
      valueNames := n.valueNames ++ [name]
      values := insert lower name v n.values } := by
  have missing : lower name ∉ keys lower n.values := by
    rw [← value_isSome, absent]
    simp
  have grown : keys lower (insert lower name v n.values) = keys lower n.values ++ [lower name] := by
    rw [KeyedTable.insert, keys_upsert, if_neg missing]
  refine ⟨nodup_upsert indexed.unique name _, ?_, fun g => ?_⟩
  · rw [map_append, nodup_append]
    refine ⟨indexed.distinct, nodup_singleton _, fun a listed b last equal => ?_⟩
    rw [map_singleton, mem_singleton] at last
    exact missing ((indexed.exact _).mp (last ▸ equal ▸ listed))
  · rw [grown, map_append, mem_append, mem_append, indexed.exact g]
    rfl

theorem Indexed.setValue {n : RegistryKey} (indexed : Indexed n) (name : Str)
    (v : RegistryValue) : Indexed (n.setValue name v) := by
  rw [RegistryKey.setValue]
  cases found : n.value name with
  | some => exact indexed.overwrite (by rw [found]; rfl)
  | none => exact indexed.add found

theorem Indexed.removeValue (indexed : Indexed n) (name : Str) : Indexed (n.removeValue name) := by
  refine ⟨nodup_erase indexed.unique, ?_, fun g => ?_⟩
  · exact indexed.distinct.sublist (filter_sublist.map _)
  · have exact_ := indexed.exact g
    simp only [RegistryKey.removeValue, erase, KeyedTable.keys, mem_map, mem_filter,
      decide_eq_true_eq] at exact_ ⊢
    constructor
    · rintro ⟨m, ⟨listed, off⟩, rfl⟩
      obtain ⟨e, stored, same⟩ := exact_.mp ⟨m, listed, rfl⟩
      exact ⟨e, ⟨stored, by rwa [same]⟩, same⟩
    · rintro ⟨e, ⟨stored, off⟩, rfl⟩
      obtain ⟨m, listed, same⟩ := exact_.mpr ⟨e, stored, rfl⟩
      exact ⟨m, ⟨listed, by rwa [same]⟩, same⟩

/-- What an edit that looks at nothing needs: an unconditional push finds its name
absent, and a store without a push finds it present. -/
def NodeEdit.Fits (n : RegistryKey) : NodeEdit → Prop
  | .push name _ => n.value name = none
  | .store name _ => (n.value name).isSome
  | _ => True

instance (n : RegistryKey) (e : NodeEdit) : Decidable (NodeEdit.Fits n e) := by
  cases e <;> unfold NodeEdit.Fits <;> infer_instance

theorem Indexed.apply (indexed : Indexed n) {e : NodeEdit} (fits : NodeEdit.Fits n e) :
    Indexed (e.apply n) := by
  cases e with
  | ensure => exact indexed
  | set name v => exact indexed.setValue name v
  | setByNames name v =>
    have listed : (n.valueNames.any fun m => lower m = lower name) = (n.value name).isSome := by
      rw [Bool.eq_iff_iff, value_isSome, ← indexed.exact]
      simp
    simp only [NodeEdit.apply, listed]
    exact indexed.setValue name v
  | push _ v => exact indexed.add fits
  | store _ v => exact indexed.overwrite fits
  | addMissing name v =>
    rw [NodeEdit.apply]
    split
    · exact indexed
    · exact indexed.setValue name v

theorem apply_children (e : NodeEdit) (n : RegistryKey) : (e.apply n).children = n.children := by
  cases e with
  | addMissing => rw [NodeEdit.apply]; split <;> rfl
  | _ => rfl

def EditFits (root : RegistryKey) (e : KeyEdit) : Prop :=
  NodeEdit.Fits ((node e.1 root).getD new) e.2

instance (root : RegistryKey) (e : KeyEdit) : Decidable (EditFits root e) :=
  inferInstanceAs (Decidable (NodeEdit.Fits _ e.2))

variable {path : List Str}

section
variable (all : AllNodes Indexed root)
include all

theorem indexed_walkMutCreate
    {f : RegistryKey → RegistryKey} (keeps : ∀ n, (f n).children = n.children)
    (fits : Indexed (f ((node path root).getD new))) :
    AllNodes Indexed (walkMutCreate path f root) :=
  all.walkMutCreate Indexed.new (fun n s _ => Indexed.graft n s) (child_of_children_eq keeps) fits

theorem indexed_applyEdits {edits : List KeyEdit}
    (fits : AllSteps applyEdit EditFits root edits) : AllNodes Indexed (applyEdits root edits) := by
  have keep : ∀ root e, AllNodes Indexed root → EditFits root e →
      AllNodes Indexed (applyEdit root e) := by
    intro root e indexed fit
    exact indexed_walkMutCreate indexed (apply_children e.2) ((indexed.at Indexed.new e.1).apply fit)
  exact good_run keep all fits

theorem indexed_set : AllNodes Indexed (walkMutCreate path (.setValue name v) root) :=
  indexed_walkMutCreate all (fun _ => rfl) ((all.at Indexed.new path).setValue name v)

end

theorem indexed_parseRegValue {after : RegistryKey} (all : AllNodes Indexed root) {line : Str}
    (parsed : parseRegValue line path root = .ok after) : AllNodes Indexed after := by
  rw [parseRegValue] at parsed
  split at parsed
  · cases parsed; exact all
  · split at parsed
    · cases parsed; exact all
    · next name rest _ =>
      cases data : parseData rest with
      | error => rw [data] at parsed; cases parsed
      | ok found =>
        rw [data] at parsed
        cases found with
        | none => cases parsed; exact all
        | some v => cases parsed; exact indexed_set all

theorem indexed_loadLine {rootSegments : List Str} {st after : LoadState} {line : Str}
    (all : AllNodes Indexed st.root) (loaded : loadLine rootSegments st line = .ok after) :
    AllNodes Indexed after.root := by
  have value : ∀ text, ((parseRegValue text st.currentPath st.root).map fun root =>
      ({ st with root, continuation := [] } : LoadState)) = .ok after →
      AllNodes Indexed after.root := by
    intro text ok
    cases parsed : parseRegValue text st.currentPath st.root with
    | error => rw [parsed] at ok; cases ok
    | ok => rw [parsed] at ok; cases ok; exact indexed_parseRegValue all parsed
  rw [loadLine] at loaded
  split at loaded
  · split at loaded
    · cases loaded; exact all
    · exact value _ loaded
  · next quiet =>
    rw [not_not] at quiet
    split at loaded
    · cases loaded; exact all
    · split at loaded
      · cases loaded
        split
        · exact indexed_walkMutCreate all (fun _ => rfl) (all.at Indexed.new _)
        · exact all
      · split at loaded
        · cases loaded; exact all
        · rw [← quiet] at value
          exact value _ loaded

theorem indexed_loadRegFile (all : AllNodes Indexed root) (content rootPrefix : Str) :
    AllNodes Indexed (loadRegFile root content rootPrefix).1 := by
  have run : ∀ (text : List Str) (st : LoadState), AllNodes Indexed st.root →
      AllNodes Indexed (loadLines (splitPath rootPrefix) st text).1.root := by
    intro text
    induction text with
    | nil => exact fun st indexed => indexed
    | cons line rest ih =>
      intro st indexed
      rw [loadLines]
      cases loaded : loadLine (splitPath rootPrefix) st line with
      | ok after => exact ih after (indexed_loadLine indexed loaded)
      | error => exact indexed
  exact run _ _ all

theorem indexed_deleteKey {after : Registry} (all : AllNodes Indexed r.root) {done : Bool}
    (deleted : r.deleteKey hkey = .ok (done, after)) : AllNodes Indexed after.root := by
  rcases deleteKey_cases deleted with same | ⟨path, -, below, -, -, -, -, same⟩
  · cases same
    exact all
  · cases same
    refine all.walkMutCreate Indexed.new (fun n s _ => Indexed.graft n s) (fun m seg c found => ?_)
      ⟨(all.at Indexed.new _).unique, (all.at Indexed.new _).distinct, (all.at Indexed.new _).exact⟩
    rw [child_removeChild] at found
    split_ifs at found
    exact found

end

inductive RuntimeRequest
  | initRuntimeKeys (userSid : Str)
  | applyDisplayDriver (userSid drvShort drvDll : Str)
  | applyDisplayRegistry (dd : DisplayData)
  | updateDisplayGuid (guid drvDll : Str)

def RuntimeRequest.edits (comClasses : List ComClass) (ownSid : Str) : RuntimeRequest → List KeyEdit
  | initRuntimeKeys userSid => RegistryRuntime.initRuntimeKeys comClasses userSid
  | applyDisplayDriver userSid drvShort drvDll =>
    RegistryRuntime.applyDisplayDriver userSid drvShort drvDll
  | applyDisplayRegistry dd => RegistryRuntime.applyDisplayRegistry ownSid dd
  | updateDisplayGuid guid drvDll => RegistryRuntime.updateDisplayGuid guid drvDll

inductive TreeRequest
  | runtime (op : RuntimeRequest)
  | loadRegFile (content rootPrefix : Str)
  | createKey (parent : UInt32) (name : List UInt8)
  | setValue (hkey : UInt32) (name : List UInt8) (dataType : UInt32) (data : List UInt8)
  | deleteValue (hkey : UInt32) (name : List UInt8)
  | deleteKey (hkey : UInt32)

section
variable [CaseMap]

section
variable (comClasses : List ComClass) (r : Registry)

/-- One operation. After a panic the tree is as far as the operation had come. -/
def handle : TreeRequest → Registry
  | .runtime op => { r with root := applyEdits r.root (op.edits comClasses r.userSid) }
  | .loadRegFile content rootPrefix =>
    { r with root := (loadRegFile r.root content rootPrefix).1 }
  | .createKey parent name =>
    match r.createKey parent name with
    | .ok (_, after) => after
    | .error _ => r
  | .setValue hkey name dataType data => r.setValue hkey name dataType data
  | .deleteValue hkey name => (r.deleteValue hkey name).2
  | .deleteKey hkey =>
    match r.deleteKey hkey with
    | .ok (_, after) => after
    | .error _ => r

def EditsFit : TreeRequest → Prop
  | .runtime op => AllSteps applyEdit EditFits r.root (op.edits comClasses r.userSid)
  | _ => True

end

instance (comClasses : List ComClass) (r : Registry) (req : TreeRequest) :
    Decidable (EditsFit comClasses r req) := by
  cases req <;> unfold EditsFit <;> infer_instance

theorem indexed_handle {comClasses : List ComClass} (all : AllNodes Indexed r.root)
    {req : TreeRequest} (fits : EditsFit comClasses r req) :
    AllNodes Indexed (handle comClasses r req).root := by
  cases req with
  | runtime => exact indexed_applyEdits all fits
  | loadRegFile content rootPrefix => exact indexed_loadRegFile all content rootPrefix
  | createKey parent name =>
    rw [handle, Registry.createKey]
    cases walked : r.walk (r.requestPath parent name) with
    | error => exact all
    | ok => exact indexed_walkMutCreate all (fun _ => rfl) (all.at Indexed.new _)
  | setValue =>
    rw [handle, Registry.setValue]
    split
    · exact all
    · next path _ => exact indexed_set all
  | deleteValue =>
    rw [handle, Registry.deleteValue]
    split
    · exact all
    · next path _ =>
      split
      · exact all
      · split
        · exact indexed_walkMutCreate all (fun _ => rfl) ((all.at Indexed.new path).removeValue _)
        · exact all
  | deleteKey =>
    rw [handle]
    split
    · next done after deleted => exact indexed_deleteKey all deleted
    · exact all

/-- Enumeration through a handle: `listed` holds the values of the key that is read,
each once; the indices run through it and end, and its length is the count. -/
def EnumeratesOnce (r : Registry) (hkey : UInt32) (n : RegistryKey) : Prop :=
  ∃ listed : List (Str × RegistryValue),
    (listed.map fun e => (lower e.1, e.2)).Perm (n.values.map fun e => (lower e.1, e.2)) ∧
    (∀ i, r.enumValue hkey i = .ok (listed[i]?.map fun e =>
      (leBytes (encodeUtf16 e.1), e.2.dataType, e.2.data))) ∧
    ∃ subkeys maxName maxData,
      r.queryKey hkey = .ok (some (subkeys, listed.length, maxName, maxData))

theorem listedValues_getElem? (indexed : Indexed n) (i : Nat) :
    (listedValues n)[i]? = n.valueNames[i]?.bind fun name => (n.value name).map fun v => (name, v) := by
  have stored : ∀ name ∈ n.valueNames, (n.value name).isSome := fun name mem =>
    value_isSome.mpr ((indexed.exact _).mp (mem_map_of_mem mem))
  rw [listedValues]
  generalize n.valueNames = names at stored
  induction names generalizing i with
  | nil => rfl
  | cons name rest ih =>
    obtain ⟨v, found⟩ := Option.isSome_iff_exists.mp (stored name mem_cons_self)
    rw [filterMap_cons_some (b := (name, v)) (by rw [found]; rfl)]
    cases i with
    | zero => simp [found]
    | succ i => simpa using ih i fun m mem => stored m (mem_cons_of_mem _ mem)

theorem get_eq_some_iff (unique : (keys lower n.values).Nodup) {g : Str} {v : RegistryValue} :
    KeyedTable.get lower g n.values = some v ↔ ∃ e ∈ n.values, lower e.1 = g ∧ e.2 = v := by
  rw [KeyedTable.get, Option.map_eq_some_iff]
  constructor
  · rintro ⟨e, found, rfl⟩
    exact ⟨e, find_mem found, find_key found, rfl⟩
  · rintro ⟨e, mem, rfl, rfl⟩
    exact ⟨e, find_of_mem unique mem, rfl⟩

theorem listedValues_perm (indexed : Indexed n) :
    ((listedValues n).map fun e => (lower e.1, e.2)).Perm
      (n.values.map fun e => (lower e.1, e.2)) := by
  have names : ((listedValues n).map fun e => (lower e.1, e.2)).map Prod.fst =
      n.valueNames.map lower := by
    apply ext_getElem?
    intro i
    rw [map_map, getElem?_map, getElem?_map, listedValues_getElem? indexed]
    cases at_i : n.valueNames[i]? with
    | none => rfl
    | some =>
      have listed := mem_map_of_mem (f := lower) (mem_of_getElem? at_i)
      obtain ⟨v, found⟩ := Option.isSome_iff_exists.mp
        (value_isSome.mpr ((indexed.exact _).mp listed))
      simp [found]
  have nodupLeft := List.Nodup.of_map Prod.fst (names ▸ indexed.distinct)
  have nodupRight : (n.values.map fun e => (lower e.1, e.2)).Nodup := by
    apply List.Nodup.of_map Prod.fst
    rw [map_map]
    exact indexed.unique
  rw [perm_ext_iff_of_nodup nodupLeft nodupRight]
  rintro ⟨g, v⟩
  simp only [mem_map, Prod.mk.injEq, listedValues, mem_filterMap, Option.map_eq_some_iff]
  constructor
  · rintro ⟨e, ⟨name, listed, w, found, rfl⟩, rfl, rfl⟩
    obtain ⟨e, mem, same, equal⟩ := (get_eq_some_iff indexed.unique).mp found
    exact ⟨e, mem, same, equal⟩
  · rintro ⟨e, mem, rfl, rfl⟩
    obtain ⟨name, listed, same⟩ := mem_map.mp
      ((indexed.exact (lower e.1)).mpr (mem_map.mpr ⟨e, mem, rfl⟩))
    refine ⟨(name, e.2), ⟨name, listed, e.2, ?_, rfl⟩, same, rfl⟩
    exact (get_eq_some_iff indexed.unique).mpr ⟨e, mem, same.symm, rfl⟩

theorem readKey_node (read : r.readKey hkey = .ok (some n)) :
    ∃ path, node path r.root = some n := by
  rw [Registry.readKey] at read
  split at read
  · cases read
  · next path _ =>
    rw [Registry.walk, RegistryWalk.walk] at read
    rcases walkFrom_returns r.root (4 - r.linkDepth.toNat) r.linkDepth path with
      ⟨-, -, clean⟩ | ⟨⟨p, panicked⟩, -⟩
    · rw [walkFrom_readPath _ _ _ _ clean] at read
      exact ⟨_, Except.ok.inj read⟩
    · rw [panicked] at read
      cases read

theorem enumeratesOnce (all : AllNodes Indexed r.root) (read : r.readKey hkey = .ok (some n)) :
    EnumeratesOnce r hkey n := by
  obtain ⟨path, found⟩ := readKey_node read
  have indexed := all path n found
  have perm := listedValues_perm indexed
  refine ⟨listedValues n, perm, fun i => ?_, ?_⟩
  · simp only [enumValue, read, Except.map, Option.bind_some]
    rw [listedValues_getElem? indexed]
    cases n.valueNames[i]? with
    | none => rfl
    | some => simp only [Option.bind_some, Option.map_map, Function.comp_def]
  · have count : (listedValues n).length = n.values.length := by simpa using perm.length_eq
    rw [count, queryKey, read]
    exact ⟨_, _, _, rfl⟩

theorem run_indexed (comClasses : List ComClass) (userSid : Str) (requests : List TreeRequest)
    (fits : AllSteps (handle comClasses) (EditsFit comClasses) (empty userSid) requests) :
    ∀ r ∈ states (handle comClasses) (empty userSid) requests, AllNodes Indexed r.root ∧
        ∀ hkey n, r.readKey hkey = .ok (some n) → EnumeratesOnce r hkey n := by
  have start : AllNodes Indexed (empty userSid).root := fun path n found =>
    node_new path n found ▸ Indexed.new
  have keep : ∀ (r : Registry) req, AllNodes Indexed r.root → EditsFit comClasses r req →
      AllNodes Indexed (handle comClasses r req).root := fun r req all fit =>
    indexed_handle all fit
  intro r reached
  have all := good_of_allSteps keep start fits r reached
  exact ⟨all, fun hkey n read => enumeratesOnce all read⟩

end

def deviceThenGuid : List TreeRequest :=
  [.createKey 0 (leBytes (encodeUtf16 devmapPath)),
    .setValue 1 (leBytes (encodeUtf16 "\\Device\\Video0".toList)) 1 [0, 0],
    .runtime (.updateDisplayGuid "10de2484".toList "winex11.drv".toList)]

set_option maxRecDepth 10000 in
theorem run_indexed_deviceThenGuid :
    AllSteps (@handle asciiCase []) (@EditsFit asciiCase []) (empty []) deviceThenGuid ∧
      @AllNodes asciiCase (@Indexed asciiCase)
        (run (@handle asciiCase []) (empty []) deviceThenGuid).root := by
  have fits : AllSteps (@handle asciiCase []) (@EditsFit asciiCase []) (empty [])
      deviceThenGuid := by decide +kernel
  exact ⟨fits, (@run_indexed asciiCase [] [] deviceThenGuid fits _ (run_mem_states _ _)).1⟩

def twoScreens : DisplayData :=
  let screen := ⟨"DP-1".toList, [], [], 0, 0, 0⟩
  ⟨⟨0, 0, 0, 0, 0, [], 0⟩, [screen, screen], 0⟩

/-- A daemon starts on what another one with the same screens has saved. -/
def secondStart : List TreeRequest :=
  [.runtime (.initRuntimeKeys "S-1-5-21".toList),
    .loadRegFile "[Hardware\\\\DeviceMap\\\\Video]\n\"\\\\Device\\\\Video1\"=\"\"".toList
      "Registry\\Machine".toList,
    .runtime (.updateDisplayGuid "10de2484".toList "winex11.drv".toList),
    .runtime (.applyDisplayRegistry twoScreens)]

theorem second_start_lists_twice : ¬ ∀ r ∈ states (@handle asciiCase []) (empty []) secondStart,
      @AllNodes asciiCase (@Indexed asciiCase) r.root := by
  intro all
  have listed : (@node asciiCase (splitPath devmapPath)
      (run (@handle asciiCase []) (empty []) secondStart).root).map RegistryKey.valueNames =
        some ["\\Device\\Video0".toList, "\\Device\\Video1".toList, "\\Device\\Video1".toList] := by
    decide +kernel
  obtain ⟨n, found, names⟩ := Option.map_eq_some_iff.mp listed
  have distinct := @Indexed.distinct asciiCase n (all _ (run_mem_states _ _) _ n found)
  rw [names] at distinct
  exact absurd distinct (by decide)

end Triskelion.ValueIndex
