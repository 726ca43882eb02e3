import Triskelion.RuntimeKeys
import Triskelion.ValueIndex

/-! Links across a restart: the registry is saved, and the files are loaded into a fresh
one. The header of `CurrentControlSet` is itself resolved through the link, so its
`SymbolicLinkValue` is stored in `ControlSet001`. -/

namespace Triskelion.RegistryRestart
open KeyedTable RegistryKey RegistryWalk RegistryText RegistryLines RegistrySections List
  RegistryRoundTrip RegistryRuntime LinkPaths TidyTree LinkReplay RuntimeKeys ValueIndex RunRules
  Utf16Text
open Option (bind_eq_some_iff bind_some map_eq_some_iff)

def Alphanumeric (s : Str) : Prop := s.all Char.isAlphanum

instance (s : Str) : Decidable (Alphanumeric s) :=
  inferInstanceAs (Decidable (s.all Char.isAlphanum))

/-- A client's `create_key` or `set_value` whose names and strings are alphanumeric. -/
def PlainRequest : TreeRequest → Prop
  | .createKey _ name => ∀ seg ∈ parseKeyPath name, Alphanumeric seg
  | .setValue _ name dataType data => Alphanumeric (RegName.fromUtf16le name) ∧
      (dataType = 1 ∨ dataType = 2 ∨ dataType = 6 → Alphanumeric (trimmedText data))
  | _ => False

variable {s sid userSid : Str} {data : List UInt8} {file : Str × Str} {e : FileSection}
  {root n : RegistryKey}

variable {c : Char}

theorem Alphanumeric.not_mem (alnum : Alphanumeric s) (other : c.isAlphanum = false) :
    c ∉ s := fun mem => by
  have := all_eq_true.mp alnum c mem
  rw [other] at this
  cases this

theorem Alphanumeric.isAscii (alnum : Alphanumeric s) : isAscii s :=
  all_eq_true.mpr fun c mem =>
    decide_eq_true (toNat_of_isAlphanum (all_eq_true.mp alnum c mem))

theorem nicePath_parseKeyPath {name : List UInt8}
    (alnum : ∀ seg ∈ parseKeyPath name, Alphanumeric seg) : NicePath (parseKeyPath name) := by
  intro seg mem
  have plain := alnum seg mem
  refine ⟨?_, plain.isAscii, plain.not_mem rfl, plain.not_mem rfl, plain.not_mem rfl⟩
  rintro rfl
  simp [parseKeyPath, splitPath] at mem

section
variable (alnum : Alphanumeric (trimmedText data))
include alnum

theorem mem_text
    (mem : c ∈ fromUtf16Lossy (ofLeBytes data)) : c.isAlphanum ∨ c = '\x00' := by
  have split := rdropWhile_append_rtakeWhile (p := (· == '\x00'))
    (l := fromUtf16Lossy (ofLeBytes data))
  rw [← split, mem_append] at mem
  rcases mem with text | nuls
  · exact .inl (all_eq_true.mp alnum c text)
  · exact .inr (by simpa using mem_rtakeWhile_imp nuls)

theorem not_mem_text
    (other : c.isAlphanum = false) (nul : c ≠ '\x00') : c ∉ fromUtf16Lossy (ofLeBytes data) := by
  intro mem
  rcases mem_text alnum mem with inside | same
  · rw [other] at inside
    cases inside
  · exact nul same

theorem parseKeyPath_text : NicePath (parseKeyPath data) ∧ (parseKeyPath data).length ≤ 1 := by
  have whole := splitOn_eq_singleton (not_mem_text alnum rfl (by decide) : '\\' ∉ _)
  refine ⟨nicePath_splitPath ⟨all_eq_true.mpr fun c mem => decide_eq_true ?_,
    not_mem_text alnum rfl (by decide), not_mem_text alnum rfl (by decide)⟩, ?_⟩
  · rcases mem_text alnum mem with inside | rfl
    · exact toNat_of_isAlphanum inside
    · decide
  · rw [parseKeyPath, splitPath, whole]
    exact length_filter_le _ _

end

theorem targets_of_plain {dataType : UInt32}
    (strings : dataType = 1 ∨ dataType = 2 ∨ dataType = 6 → Alphanumeric (trimmedText data))
    {t : List Str} (target : targetOf ⟨dataType, data⟩ = some t) : NicePath t ∧ t.length ≤ 1 := by
  rw [targetOf] at target
  split at target
  · next link => exact Option.some.inj target ▸ parseKeyPath_text (strings (.inr (.inr link)))
  · cases target

section Running
variable [CaseMap]

/-- What holds of the registry while clients create keys and set values. -/
structure Regular (r : Registry) : Prop where
  tidy : Tidy r.root
  opened : ∀ h path, r.openKeys.get? h = some path → NicePath path
  links : ∀ p v, stored p linkName r.root = some v →
    p.map lower = currentPath.map lower ∧ v = currentControlSetLink ∨ ShortLink v
  control : (node controlSetPath r.root).isSome
  current : (node currentPath r.root).isSome

variable {comClasses : List ComClass}

theorem regular_fresh (fresh : Fresh (freshRegistry comClasses sid).root) :
    Regular (freshRegistry comClasses sid) where
  __ := fresh
  opened h path found := by cases found
  links p v found := .inl (fresh.only p v found)
  current := by
    obtain ⟨n, found, -⟩ := bind_eq_some_iff.mp fresh.current
    rw [found]
    rfl

variable {r : Registry} {name : List UInt8}

theorem Regular.createKey {after : Registry} (regular : Regular r) {parent : UInt32}
    (alnum : ∀ seg ∈ parseKeyPath name, Alphanumeric seg) {out : UInt32 × Bool}
    (created : r.createKey parent name = .ok (out, after)) : Regular after := by
  have nice : NicePath (r.requestPath parent name) := by
    refine regular.tidy.followSymlink (nicePath_append.mpr ⟨?_, nicePath_parseKeyPath alnum⟩)
    rw [Registry.resolveParent]
    split
    · exact forall_mem_nil _
    · cases found : r.openKeys.get? parent with
      | none => exact forall_mem_nil _
      | some path => exact regular.opened parent path found
  have keeps := keeps_applyEdit r.root (e := (r.requestPath parent name, .ensure))
    ⟨nice, plainNode_ensure⟩
  rw [Registry.createKey] at created
  cases walked : r.walk (r.requestPath parent name) with
  | error =>
    rw [walked] at created
    cases created
  | ok =>
    rw [walked] at created
    cases created
    refine ⟨keeps.tidy regular.tidy, Table.forall_insert regular.opened nice, fun p v found => ?_,
      keeps.keys _ regular.control, keeps.keys _ regular.current⟩
    exact regular.links p v ((keeps.links p).symm.trans found)

theorem Regular.setValue (regular : Regular r) (hkey : UInt32)
    (alnum : Alphanumeric (RegName.fromUtf16le name)) {dataType : UInt32} {data : List UInt8}
    (strings : dataType = 1 ∨ dataType = 2 ∨ dataType = 6 → Alphanumeric (trimmedText data)) :
    Regular (r.setValue hkey name dataType data) := by
  rw [Registry.setValue]
  split
  · exact { regular with }
  · next path found =>
    have keeps : ∀ n, (RegistryKey.setValue (RegName.fromUtf16le name) ⟨dataType, data⟩ n).children =
        n.children := fun _ => rfl
    refine ⟨?_, regular.opened, fun p v stored_ => ?_,
      node_isSome_walkMutCreate keeps regular.control,
      node_isSome_walkMutCreate keeps regular.current⟩
    · refine regular.tidy.walkMutCreate (regular.opened hkey path found) keeps fun n tidy => ?_
      exact tidy.setValue ⟨alnum.not_mem rfl,
        fun string => (strings (string.imp_right .inl)).not_mem rfl,
        fun _ t target => (targets_of_plain strings target).1⟩
    · rw [stored_walkMutCreate keeps, value_setValue] at stored_
      split at stored_
      · next same =>
        split at stored_
        · refine .inr fun t target => ?_
          rw [← Option.some.inj stored_] at target
          exact (targets_of_plain strings target).2
        · apply regular.links p v
          rw [stored, ← node_congr same]
          cases at_ : node path r.root with
          | none =>
            rw [at_] at stored_
            cases stored_
          | some =>
            rw [at_] at stored_
            exact stored_
      · exact regular.links p v stored_

theorem Regular.handle (regular : Regular r)
    {req : TreeRequest} (plain : PlainRequest req) : Regular (handle comClasses r req) := by
  cases req with
  | createKey =>
    rw [ValueIndex.handle]
    split
    · next created => exact regular.createKey plain created
    · exact regular
  | setValue hkey => exact regular.setValue hkey plain.1 plain.2
  | runtime | loadRegFile | deleteValue | deleteKey => exact plain.elim

theorem Regular.run (regular : Regular r)
    {ops : List TreeRequest} (plain : ∀ op ∈ ops, PlainRequest op) :
    Regular (run (ValueIndex.handle comClasses) r ops) := by
  induction ops generalizing r with
  | nil => exact regular
  | cons op rest ih =>
    exact ih (regular.handle (plain op mem_cons_self))
      fun later mem => plain later (mem_cons_of_mem _ mem)

end Running

theorem hiveFiles_names : ((hiveFiles userSid).map Prod.fst).Nodup := by
  show ["system.reg".toList, "user.reg".toList, "userdef.reg".toList].Nodup
  decide

theorem plain_hiveFiles (plain : PlainSid userSid) (mem : file ∈ hiveFiles userSid) :
    PlainPath file.2 ∧ '\r' ∉ file.2 := by
  have noReturn : '\r' ∉ userSid := fun inside =>
    absurd (all_eq_true.mp plain.2 _ inside) (by decide)
  simp only [hiveFiles, mem_cons, not_mem_nil, or_false] at mem
  rcases mem with rfl | rfl | rfl
  · exact ⟨plainPath_literal (by decide), by decide⟩
  · refine ⟨PlainPath.append (plainPath_literal (by decide)) (plainPath_sid plain), ?_⟩
    rw [mem_append, not_or]
    exact ⟨by decide, noReturn⟩
  · exact ⟨plainPath_literal (by decide), by decide⟩

theorem splitPath_append (t : Str) : splitPath (s ++ '\\' :: t) = splitPath s ++ splitPath t := by
  rw [splitPath, splitOn_append_cons_self, filter_append]
  rfl

theorem splitPath_segment (nice : NiceName s) : splitPath s = [s] := by
  rw [splitPath, splitOn_eq_singleton nice.2.2.2.2]
  exact filter_cons_of_pos (by simp [nice.1])

theorem niceName_sid (plain : PlainSid sid) : NiceName sid := by
  obtain ⟨ascii, noBreak, noBracket⟩ := plainPath_sid plain
  exact ⟨plain.1, ascii, noBreak, noBracket, fun mem =>
    absurd (all_eq_true.mp plain.2 _ mem) (by decide)⟩

def hiveRoots (userSid : Str) : List (List Str) :=
  [["Registry".toList, "Machine".toList], ["Registry".toList, "User".toList, userSid],
    ["Registry".toList, "User".toList, ".Default".toList]]

theorem splitPath_hiveFiles (plain : PlainSid userSid) :
    (hiveFiles userSid).map (fun file => splitPath file.2) = hiveRoots userSid := by
  have machine : splitPath "Registry\\Machine".toList = ["Registry".toList, "Machine".toList] := by
    decide +kernel
  have default_ : splitPath "Registry\\User\\.Default".toList =
      ["Registry".toList, "User".toList, ".Default".toList] := by decide +kernel
  have user : splitPath ("Registry\\User\\".toList ++ userSid) =
      ["Registry".toList, "User".toList, userSid] := by
    have front : "Registry\\User\\".toList = "Registry\\User".toList ++ ['\\'] := by decide
    rw [front, append_assoc, singleton_append, splitPath_append,
      splitPath_segment (niceName_sid plain)]
    rfl
  rw [hiveFiles, hiveRoots, map_cons, map_cons, map_singleton, machine, user, default_]

theorem root_mem (plain : PlainSid userSid) (mem : file ∈ hiveFiles userSid) :
    splitPath file.2 ∈ hiveRoots userSid :=
  splitPath_hiveFiles plain ▸ mem_map_of_mem mem

theorem length_root {path : List Str} (mem : path ∈ hiveRoots userSid) : 2 ≤ path.length := by
  simp only [hiveRoots, mem_cons, not_mem_nil, or_false] at mem
  rcases mem with rfl | rfl | rfl <;> simp

theorem get_filterMap {files : List (Str × Str)} (nodup : (files.map Prod.fst).Nodup)
    (text : Str × Str → Option Str) (mem : file ∈ files) :
    KeyedTable.get id file.1 (files.filterMap fun f => (text f).map fun t => (f.1, t)) =
      text file := by
  have names : (keys id (files.filterMap fun f => (text f).map fun t => (f.1, t))).Nodup := by
    refine nodup.sublist ?_
    clear nodup mem
    induction files with
    | nil => exact List.Sublist.refl _
    | cons f rest ih =>
      cases found : text f with
      | none =>
        rw [filterMap_cons_none (by rw [found]; rfl)]
        exact ih.cons _
      | some =>
        rw [filterMap_cons_some (by rw [found]; rfl)]
        exact ih.cons_cons _
  cases found : text file with
  | some t =>
    have inside : (file.1, t) ∈ files.filterMap fun f => (text f).map fun t => (f.1, t) :=
      mem_filterMap.mpr ⟨file, mem, by rw [found]; rfl⟩
    rw [KeyedTable.get, show file.1 = id (file.1, t).1 from rfl, find_of_mem names inside]
    rfl
  | none =>
    have absent : file.1 ∉ keys id (files.filterMap fun f => (text f).map fun t => (f.1, t)) := by
      intro inside
      obtain ⟨e, mem_e, same⟩ := mem_map.mp inside
      obtain ⟨f, mem_f, written⟩ := mem_filterMap.mp mem_e
      obtain ⟨t, text_f, rfl⟩ := map_eq_some_iff.mp written
      rw [inj_on_of_nodup_map nodup mem_f mem same, found] at text_f
      cases text_f
    rw [KeyedTable.get, find_eq_none.mpr absent]
    rfl

section Files
variable [CaseMap]

def fileSections (root : RegistryKey) (file : Str × Str) : List FileSection :=
  match node (splitPath file.2) root with
  | none => []
  | some hive => (hiveSections hive).map (absolute (splitPath file.2))

def allSections (userSid : Str) (root : RegistryKey) : List FileSection :=
  (hiveFiles userSid).flatMap (fileSections root)

theorem get_saveToPrefix (mem : file ∈ hiveFiles userSid) :
    get id file.1 (saveToPrefix userSid root) =
      (node (splitPath file.2) root).bind (hiveText file.2) :=
  get_filterMap hiveFiles_names (fun f => (node (splitPath f.2) root).bind (hiveText f.2)) mem

theorem foldl_loadSection_eq (rootSegments : List Str) {es : List FileSection}
    (nice : ∀ e ∈ es, NicePath e.1 ∧ e.1 ≠ []) (root : RegistryKey) :
    es.foldl (loadSection rootSegments) root =
      (es.map (absolute rootSegments)).foldl loadAt root := by
  induction es generalizing root with
  | nil => rfl
  | cons e rest ih =>
    obtain ⟨plain, some_⟩ := nice e mem_cons_self
    rw [foldl_cons, loadSection, loadedPath_eq (cleanPath_of_nice plain) some_]
    exact ih (fun f mem => nice f (mem_cons_of_mem _ mem)) _

theorem hiveSections_nil {hive : RegistryKey} (bare : hive.children = []) :
    hiveSections hive = [] := by
  rw [hiveSections, sortedChildren, bare]
  rfl

theorem foldlM_sections {load : RegistryKey → Str × Str → Except Panic RegistryKey}
    {parts : Str × Str → List FileSection} {files : List (Str × Str)}
    (each : ∀ file ∈ files, ∀ root, load root file = .ok ((parts file).foldl loadAt root))
    (root : RegistryKey) :
    files.foldlM load root = .ok ((files.flatMap parts).foldl loadAt root) := by
  induction files generalizing root with
  | nil => rfl
  | cons file rest ih =>
    rw [foldlM_cons, each file mem_cons_self, flatMap_cons, foldl_append]
    exact ih (fun f mem => each f (mem_cons_of_mem _ mem)) _

theorem load_saved (plain : PlainSid userSid) {before : RegistryKey} (tidy : Tidy before) :
    loadPrefixRegistry userSid (saveToPrefix userSid before) root =
      .ok ((allSections userSid before).foldl loadAt root) := by
  refine foldlM_sections (fun file mem root => ?_) root
  obtain ⟨path, noReturn⟩ := plain_hiveFiles plain mem
  rw [get_saveToPrefix mem, fileSections]
  cases found : node (splitPath file.2) before with
  | none => rfl
  | some hive =>
    rw [bind_some]
    dsimp only
    by_cases bare : hive.children = []
    · rw [hiveText, if_pos bare, hiveSections_nil bare]
      rfl
    · have sections := tidy.node found
      have under : splitPath file.2 ≠ [] := fun none_ => by
        have long := length_root (root_mem plain mem)
        rw [none_] at long
        cases long
      rw [hiveText_sections file.2 bare]
      dsimp only
      rw [loadRegFile_sections path.2.1 noReturn under fun e inside =>
        (sections.unbroken inside).1]
      rw [foldl_loadSection_eq]
      intro e inside
      exact ⟨(sections.unbroken inside).2.1, ((mem_hiveSections hive e.1 e.2).mp inside).1⟩

theorem lower_sid_ne (plain : PlainSid sid) : lower sid ≠ lower ".Default".toList := by
  rw [lower_eq (plainPath_sid plain).1, lower_eq (by decide)]
  intro same
  have dot : '.' ∈ sid.map Char.toLower := by
    rw [same]
    decide
  obtain ⟨c, mem, becomes⟩ := mem_map.mp dot
  rw [toLower_symbol (by decide) becomes] at mem
  exact absurd (all_eq_true.mp plain.2 _ mem) (by decide)

theorem roots_apart (plain : PlainSid userSid) :
    (hiveRoots userSid).Pairwise fun a b => ∀ p q, (a ++ p).map lower ≠ (b ++ q).map lower := by
  have kinds : lower "Machine".toList ≠ lower "User".toList := by
    rw [lower_eq (by decide), lower_eq (by decide)]
    decide
  rw [hiveRoots, pairwise_cons, pairwise_cons]
  refine ⟨?_, ?_, pairwise_singleton _ _⟩
  · intro b mem p q equal
    simp only [mem_cons, not_mem_nil, or_false] at mem
    rcases mem with rfl | rfl <;>
      exact kinds (cons.inj (cons.inj equal).2).1
  · intro b mem p q equal
    rw [mem_singleton.mp mem] at equal
    exact lower_sid_ne plain (cons.inj (cons.inj (cons.inj equal).2).2).1

theorem mem_fileSections :
    e ∈ fileSections root file ↔ ∃ hive p, node (splitPath file.2) root = some hive ∧
      (p, e.2) ∈ hiveSections hive ∧ e.1 = splitPath file.2 ++ p := by
  rw [fileSections]
  cases node (splitPath file.2) root with
  | none => simp
  | some hive =>
    rw [mem_map]
    constructor
    · rintro ⟨f, mem, rfl⟩
      exact ⟨hive, f.1, rfl, mem, rfl⟩
    · rintro ⟨other, p, same, mem, path⟩
      rw [← Option.some.inj same] at mem
      exact ⟨(p, e.2), mem, Prod.ext path.symm rfl⟩

theorem nodup_allSections (plain : PlainSid userSid) (tidy : Tidy root) :
    ((allSections userSid root).map fun e => e.1.map lower).Nodup := by
  rw [allSections, map_flatMap, nodup_flatMap]
  refine ⟨fun file mem => ?_, ?_⟩
  · rw [fileSections]
    cases found : node (splitPath file.2) root with
    | none => exact nodup_nil
    | some =>
      have own := nodup_hiveSections (tidy.node found).distinct
      rw [map_map]
      refine List.Nodup.of_map (fun p => p.drop (splitPath file.2).length) ?_
      rw [map_map]
      convert own using 2
      funext e
      simp [absolute]
  · have apart := roots_apart plain
    rw [← splitPath_hiveFiles plain, pairwise_map] at apart
    refine apart.imp fun {a b} other => ?_
    intro path first second
    obtain ⟨e, mem, rfl⟩ := mem_map.mp first
    obtain ⟨f, mem', equal⟩ := mem_map.mp second
    obtain ⟨-, p, -, -, at_e⟩ := mem_fileSections.mp mem
    obtain ⟨-, q, -, -, at_f⟩ := mem_fileSections.mp mem'
    rw [at_e, at_f] at equal
    exact other p q equal.symm

theorem mem_allSections (mem : e ∈ allSections userSid root) : ∃ file ∈ hiveFiles userSid, ∃ hive p,
      node (splitPath file.2) root = some hive ∧ (p, e.2) ∈ hiveSections hive ∧
      e.1 = splitPath file.2 ++ p := by
  obtain ⟨file, inside, here⟩ := mem_flatMap.mp mem
  exact ⟨file, inside, mem_fileSections.mp here⟩

theorem node_section (tidy : Tidy root) (mem : e ∈ allSections userSid root) :
    node e.1 root = some e.2 := by
  obtain ⟨file, -, hive, p, found, inside, path⟩ := mem_allSections mem
  obtain ⟨-, at_p, -⟩ := (mem_hiveSections hive p e.2).mp inside
  rw [path, node_append, found]
  exact node_of_at (tidy.node found).distinct at_p

theorem deep_section (plain : PlainSid userSid) (mem : e ∈ allSections userSid root) :
    3 ≤ e.1.length := by
  obtain ⟨file, inside, hive, p, -, here, path⟩ := mem_allSections mem
  obtain ⟨some_, -, -⟩ := (mem_hiveSections hive p e.2).mp here
  have long := length_root (root_mem plain inside)
  have more := length_pos_of_ne_nil some_
  rw [path, length_append]
  omega

end Files

section LoadedLinks

variable {v : RegistryValue}

theorem valueText_loadedValue (written : (valueText v).isSome) :
    (valueText (loadedValue v)).isSome := by
  rw [loadedValue]
  split
  · rfl
  · next plain =>
    split
    · rfl
    · next expand =>
      split
      · next dword =>
        rw [valueText, if_neg plain, if_neg expand, if_pos dword] at written
        rcases data : v.data with _ | ⟨a, _ | ⟨b, _ | ⟨c, _ | ⟨d, rest⟩⟩⟩⟩
        all_goals simp [data] at written
        rfl
      · exact written

variable [CaseMap]

theorem loaded_link {e : Str × RegistryValue} (mem : e ∈ loadedValues (listedValues n))
    (link : lower e.1 = lower linkName) :
    ∃ v, n.value linkName = some v ∧ e.2 = loadedValue v ∧ (valueText v).isSome := by
  rw [loadedValues_listed] at mem
  obtain ⟨m, -, loaded⟩ := mem_filterMap.mp mem
  obtain ⟨v, found, written⟩ := bind_eq_some_iff.mp loaded
  obtain ⟨text, some_, rfl⟩ := map_eq_some_iff.mp written
  refine ⟨v, ?_, rfl, by rw [some_]; rfl⟩
  rw [← found, value, value, loadedName_link link]

variable {values : List (Str × RegistryValue)}

theorem value_storeAll_new {name : Str} (agree : ∀ e ∈ values, lower e.1 = lower name → e.2 = v) :
    (storeAll values new).value name =
      if ∃ e ∈ values, lower e.1 = lower name then some v else none := by
  rw [value, KeyedTable.get, find_storeAll agree]
  cases found : values.find? fun e => lower e.1 = lower name with
  | none =>
    rw [find?_eq_none] at found
    rw [if_neg fun inside => by
      obtain ⟨e, mem, same⟩ := inside
      exact found e mem (decide_eq_true same)]
    rfl
  | some e =>
    rw [if_pos ⟨e, mem_of_find?_eq_some found, by simpa using find?_some found⟩]
    rfl

theorem restored_link_none (absent : n.value linkName = none) :
    (restoredValues n).value linkName = none := by
  have nothing : ∀ e ∈ loadedValues (listedValues n), lower e.1 ≠ lower linkName := by
    intro e mem link
    obtain ⟨v, found, -⟩ := loaded_link mem link
    rw [absent] at found
    cases found
  rw [restoredValues, value_storeAll_new (v := ⟨0, []⟩) fun e mem link => absurd link (nothing e mem),
    if_neg fun ⟨e, mem, link⟩ => nothing e mem link]

theorem restored_link_some (held : n.value linkName = some v) : (restoredValues n).value linkName =
      if ∃ e ∈ loadedValues (listedValues n), lower e.1 = lower linkName then some (loadedValue v)
      else none := by
  apply value_storeAll_new
  intro e mem link
  obtain ⟨w, found, equal, -⟩ := loaded_link mem link
  rw [held] at found
  rw [equal, Option.some.inj found]

theorem carried_link (carried : (restoredValues n).value linkName = some v) :
    ∃ w, n.value linkName = some w ∧ v = loadedValue w := by
  cases held : n.value linkName with
  | none =>
    rw [restored_link_none held] at carried
    cases carried
  | some w =>
    rw [restored_link_some held] at carried
    split at carried
    · exact ⟨w, rfl, (Option.some.inj carried).symm⟩
    · cases carried

theorem restored_link (listed : LinkListed n) :
    (restoredValues n).value linkName = (n.value linkName).map loadedValue := by
  cases held : n.value linkName with
  | none => exact restored_link_none held
  | some v =>
    obtain ⟨⟨m, named, same⟩, written⟩ := listed v held
    rw [restored_link_some held, if_pos, Option.map_some]
    obtain ⟨text, some_⟩ := Option.isSome_iff_exists.mp written
    refine ⟨(loadedName m, loadedValue v), ?_, ?_⟩
    · rw [loadedValues_listed]
      refine mem_filterMap.mpr ⟨m, named, ?_⟩
      rw [loadedListing, value, same, ← value, held, bind_some, some_]
      rfl
    · have spelled : m ≠ ['@'] := by
        rintro rfl
        rw [lower_eq (by decide), lower_eq (by decide)] at same
        exact absurd same (by decide)
      rwa [loadedName, if_neg spelled]

theorem loaded_tidy {es : List FileSection} (sections : ∀ e ∈ es, NicePath e.1 ∧ TidyNode e.2)
    (tidy : Tidy root) (listed : Everywhere LinkListed root) :
    Tidy (es.foldl loadAt root) ∧ Everywhere LinkListed (es.foldl loadAt root) := by
  induction es generalizing root with
  | nil => exact ⟨tidy, listed⟩
  | cons e rest ih =>
    obtain ⟨nice, node⟩ := sections e mem_cons_self
    have path := tidy.followSymlink nice
    refine ih (fun f mem => sections f (mem_cons_of_mem _ mem)) ?_ ?_
    · exact tidy.walkMutCreate path (children_storeAll _) fun n here =>
        storeAll_induction (fun f mem n tidy => tidy.setValue (node.loadedValues mem)) here
    · refine Everywhere.walkMutCreate (fun v found => by cases found) (fun n seg g _ here => here)
        (children_storeAll _) (fun n => storeAll_induction fun f mem n here => here.setValue fun link => ?_)
        listed path
      obtain ⟨v, -, equal, written⟩ := loaded_link mem link
      rw [equal]
      exact valueText_loadedValue written

end LoadedLinks

section Restart
variable [CaseMap]

theorem mem_of_child {k : RegistryKey} {seg : Str} (found : k.child seg = some n) :
    ∃ name, (name, n) ∈ k.children ∧ lower name = lower seg := by
  obtain ⟨e, inside, rfl⟩ := map_eq_some_iff.mp found
  exact ⟨e.1, find_mem inside, find_key inside⟩

theorem lower_pathText {t : Str} (first : NiceName s) (second : NiceName t) :
    lower (pathText [s, t]) = lower s ++ '\\' :: '\\' :: lower t := by
  have ascii : isAscii (s ++ '\\' :: '\\' :: t) := by
    rw [isAscii_append, first.2.1]
    exact second.2.1
  have text : pathText [s, t] = s ++ '\\' :: '\\' :: t := by
    rw [pathText, foldl_cons, foldl_cons, foldl_nil, childPath, childPath, if_pos rfl,
      if_neg first.1]
  rw [text, lower_eq ascii, map_append, ← lower_eq first.2.1, map_cons, map_cons,
    ← lower_eq second.2.1]
  rfl

theorem control_sections {hive : RegistryKey} (tidy : Tidy hive) {a b : RegistryKey}
    (at_a : node ["System".toList, "ControlSet001".toList] hive = some a)
    (at_b : node ["System".toList, "CurrentControlSet".toList] hive = some b) :
    ∃ t c, [t, c].Sublist (hiveSections hive) ∧
      t.1.map lower = ["System".toList, "ControlSet001".toList].map lower ∧
      c.1.map lower = ["System".toList, "CurrentControlSet".toList].map lower := by
  obtain ⟨sys, at_sys, below_a⟩ := bind_eq_some_iff.mp at_a
  rw [node_cons, at_sys, bind_some] at at_b
  obtain ⟨n, child_a, -⟩ := bind_eq_some_iff.mp below_a
  obtain ⟨m, child_b, -⟩ := bind_eq_some_iff.mp at_b
  obtain ⟨s, mem_s, lower_s⟩ := mem_of_child at_sys
  obtain ⟨p, mem_p, lower_p⟩ := mem_of_child child_a
  obtain ⟨q, mem_q, lower_q⟩ := mem_of_child child_b
  have tidy_sys := (tidy.child mem_s) [] sys rfl
  have nice_s := (tidy [] hive rfl).names _ mem_s
  have nice_p := tidy_sys.names _ mem_p
  have nice_q := tidy_sys.names _ mem_q
  have system : lower "System".toList = "system".toList := by rw [lower_eq (by decide)]; decide
  have set : lower "ControlSet001".toList = "controlset001".toList := by
    rw [lower_eq (by decide)]; decide
  have link : lower "CurrentControlSet".toList = "currentcontrolset".toList := by
    rw [lower_eq (by decide)]; decide
  have pair : [([p], n), ([q], m)].Sublist (keySections sys [s]) := by
    refine pair_sublist_keySections (a := (p, n)) (b := (q, m)) ?_ mem_p mem_q ?_ ?_ ?_
    · have text : pathText [s] = s := rfl
      rw [text, skipsKey, lower_s, system]
      decide
    · rw [lower_p, lower_q, set, link]
      decide
    · rw [singleton_append, skipsKey, lower_pathText nice_s nice_p, lower_s, lower_p, system, set]
      decide
    · rw [singleton_append, skipsKey, lower_pathText nice_s nice_q, lower_s, lower_q, system, link]
      decide
  have inside : (sectionsOf [] (s, sys)).Sublist (hiveSections hive) := by
    have one : [(s, sys)].Sublist hive.sortedChildren :=
      singleton_sublist.mpr ((mem_insertionSort _).mpr mem_s)
    have all := one.flatMap (sectionsOf [])
    rwa [flatMap_singleton] at all
  refine ⟨([s, p], n), ([s, q], m), (pair.map fun e : FileSection => (s :: e.1, e.2)).trans inside,
    ?_, ?_⟩
  · rw [map_cons, map_singleton, lower_s, lower_p]
    rfl
  · rw [map_cons, map_singleton, lower_s, lower_q]
    rfl

theorem control_sublist (tidy : Tidy root) (control : (node controlSetPath root).isSome)
    (current : (node currentPath root).isSome) : ∃ t c, [t, c].Sublist (allSections userSid root) ∧
      t.1.map lower = controlSetPath.map lower ∧ c.1.map lower = currentPath.map lower := by
  obtain ⟨a, at_a⟩ := Option.isSome_iff_exists.mp control
  obtain ⟨b, at_b⟩ := Option.isSome_iff_exists.mp current
  have machine : splitPath "Registry\\Machine".toList = ["Registry".toList, "Machine".toList] := by
    decide +kernel
  have front : controlSetPath = ["Registry".toList, "Machine".toList] ++
      ["System".toList, "ControlSet001".toList] := rfl
  have front' : currentPath = ["Registry".toList, "Machine".toList] ++
      ["System".toList, "CurrentControlSet".toList] := rfl
  rw [front, node_append] at at_a
  obtain ⟨hive, at_hive, below_a⟩ := bind_eq_some_iff.mp at_a
  rw [front', node_append, at_hive] at at_b
  obtain ⟨t, c, pair, path_t, path_c⟩ := control_sections (tidy.node at_hive) below_a at_b
  have file : (fileSections root ("system.reg".toList, "Registry\\Machine".toList)).Sublist
      (allSections userSid root) := by
    exact sublist_append_left _ _
  rw [fileSections, machine, at_hive] at file
  refine ⟨_, _, (pair.map (absolute ["Registry".toList, "Machine".toList])).trans file, ?_, ?_⟩
  · rw [absolute, front, map_append, map_append, path_t]
  · rw [absolute, front', map_append, map_append, path_c]

structure LinksPreserved (userSid : Str) (before after : RegistryKey) : Prop where
  kept : ∀ p t, linkAt p before = some t → linkAt p after = some t
  added : ∀ p t, linkAt p after = some t → (linkAt p before).isSome
  text : saveToPrefix userSid after = saveToPrefix userSid before

/-- The registry as clients leave it, saved and loaded into a fresh one, keeps its links. -/
def Survives (comClasses : List ComClass) (userSid : Str) (ops : List TreeRequest) : Prop :=
  let fresh := freshRegistry comClasses userSid
  let before := (run (handle comClasses) fresh ops).root
  ∃ after, loadPrefixRegistry userSid (saveToPrefix userSid before) fresh.root = .ok after ∧
    LinksPreserved userSid before after

/-- The link value that a section carries shows in the second text. -/
theorem carried_of_text (plain : PlainSid userSid) {before after : RegistryKey} (tidy : Tidy before)
    (tidy' : Tidy after) (listed : Everywhere LinkListed after)
    (text : saveToPrefix userSid after = saveToPrefix userSid before)
    (mem : e ∈ allSections userSid before) :
    (restoredValues e.2).value linkName = (stored e.1 linkName after).map loadedValue := by
  obtain ⟨file, inside, hive, p, found, here, path⟩ := mem_allSections mem
  obtain ⟨plainPath, noReturn⟩ := plain_hiveFiles plain inside
  have some_ : hive.children ≠ [] := fun bare => by
    rw [hiveSections_nil bare] at here
    cases here
  have saved := hiveText_sections file.2 some_
  have same := congrArg (get id file.1) text
  rw [get_saveToPrefix inside, get_saveToPrefix inside, found, bind_some, saved] at same
  obtain ⟨hive', found', saved'⟩ := bind_eq_some_iff.mp same
  obtain ⟨m, here', loaded⟩ := same_sections (tidy.node found) (tidy'.node found')
    plainPath.2.1 noReturn saved saved' here
  obtain ⟨-, at_m, -⟩ := (mem_hiveSections hive' p m).mp here'
  have at_path : node e.1 after = some m := by
    rw [path, node_append, found']
    exact node_of_at (tidy'.node found').distinct at_m
  obtain ⟨q, spelled, -⟩ := at_of_node at_path
  rw [stored, at_path, bind_some, ← restored_link (listed q m spelled), restoredValues,
    restoredValues, loaded]

/-- A registry that had kept its links would have been reloaded without a trace of the
link of `CurrentControlSet` in `ControlSet001`. -/
theorem reloaded_of_survives {comClasses : List ComClass}
    (classes : ∀ c ∈ comClasses, PlainClass c) {userSid : Str} (plain : PlainSid userSid)
    {ops : List TreeRequest} (plainOps : ∀ op ∈ ops, PlainRequest op)
    (survives : Survives comClasses userSid ops) : ∃ before fresh es, Reloaded before fresh es := by
  obtain ⟨after, loaded, preserved⟩ := survives
  have fresh := fresh_root classes plain
  generalize final : run (handle comClasses) (freshRegistry comClasses userSid) ops = r
    at loaded preserved
  have regular := final ▸ (regular_fresh fresh).run plainOps
  rw [load_saved plain regular.tidy] at loaded
  obtain rfl := (Except.ok.inj loaded).symm
  have sections : ∀ e ∈ allSections userSid r.root, NicePath e.1 ∧ TidyNode e.2 := by
    intro e mem
    obtain ⟨q, spelled, -⟩ := at_of_node (node_section regular.tidy mem)
    obtain ⟨file, inside, hive, p, found, here, path⟩ := mem_allSections mem
    refine ⟨?_, regular.tidy q e.2 spelled⟩
    rw [path]
    exact nicePath_append.mpr ⟨nicePath_splitPath (plain_hiveFiles plain inside).1,
      ((regular.tidy.node found).unbroken here).2.1⟩
  obtain ⟨tidy', listed'⟩ := loaded_tidy sections fresh.tidy fresh.listed
  refine ⟨r.root, (freshRegistry comClasses userSid).root, allSections userSid r.root,
    nodup_allSections plain regular.tidy, fun e => deep_section plain,
    control_sublist regular.tidy regular.control regular.current, fresh.current, fresh.only,
    fun e mem v carried => ?_, fun p t linked => ?_,
    fun e mem => carried_of_text plain regular.tidy tidy' listed' preserved.text mem,
    preserved.kept, preserved.added⟩
  · obtain ⟨w, held, rfl⟩ := carried_link carried
    have stored_ : stored e.1 linkName r.root = some w := by
      rw [stored, node_section regular.tidy mem, bind_some, held]
    rcases regular.links e.1 w stored_ with ⟨path, rfl⟩ | short
    · exact .inl ⟨path, rfl⟩
    · refine .inr fun t target => short t ?_
      rwa [targetOf_loadedValue] at target
  · rw [linkAt_eq] at linked
    obtain ⟨v, held, target⟩ := bind_eq_some_iff.mp linked
    rcases regular.links p v held with ⟨path, -⟩ | short
    · exact .inr path
    · exact .inl (short t target)

/-- No restart preserves the links: the section of `CurrentControlSet` is loaded into
`ControlSet001`, whatever plain keys and values were added before. -/
theorem not_survives {comClasses : List ComClass} (classes : ∀ c ∈ comClasses, PlainClass c)
    {userSid : Str} (plain : PlainSid userSid) {ops : List TreeRequest}
    (plainOps : ∀ op ∈ ops, PlainRequest op) : ¬ Survives comClasses userSid ops := by
  intro survives
  obtain ⟨before, fresh, es, reloaded⟩ := reloaded_of_survives classes plain plainOps survives
  exact reloaded.impossible

end Restart

def oleautClass : ComClass :=
  ⟨"\x7b0000002f-0000-0000-c000-000000000046\x7d".toList,
    "C:\\windows\\system32\\oleaut32.dll".toList, "Both".toList⟩

theorem plain_oleautClass : ∀ c ∈ [oleautClass], PlainClass c :=
  forall_mem_singleton.mpr ⟨plainPath_literal (by decide), noBreak_literal (by decide),
    noBreak_literal (by decide)⟩

def localSid : Str := "S-1-5-21-0-0-0-1000".toList

def plainClient : List TreeRequest :=
  [.createKey 0 (leBytes (encodeUtf16 "Registry\\Machine\\Software\\Game".toList)),
    .setValue 1 (leBytes (encodeUtf16 "Level".toList)) 1 (strToUtf16leNull "two".toList)]

theorem plain_client : ∀ op ∈ plainClient, PlainRequest op := by
  have path : ∀ seg ∈ parseKeyPath (leBytes (encodeUtf16
      "Registry\\Machine\\Software\\Game".toList)), Alphanumeric seg := by decide +kernel
  have name : Alphanumeric (RegName.fromUtf16le (leBytes (encodeUtf16 "Level".toList))) := by
    decide +kernel
  have text : Alphanumeric (trimmedText (strToUtf16leNull "two".toList)) := by decide +kernel
  exact forall_mem_cons.mpr ⟨path, forall_mem_singleton.mpr ⟨name, fun _ => text⟩⟩

theorem not_survives_client : (∀ op ∈ plainClient, PlainRequest op) ∧ PlainSid localSid ∧
      ¬ @Survives asciiCase [oleautClass] localSid plainClient :=
  ⟨plain_client, by decide,
    @not_survives asciiCase _ plain_oleautClass _ (by decide) _ plain_client⟩

/-- Not even a restart right after the start. -/
theorem restart_of_fresh_fails : ¬ @Survives asciiCase [oleautClass] localSid [] := by
  intro survives
  obtain ⟨before, fresh, es, reloaded⟩ := @reloaded_of_survives asciiCase _ plain_oleautClass _
    (by decide) [] (forall_mem_nil _) survives
  exact @Reloaded.impossible asciiCase _ _ _ reloaded

end Triskelion.RegistryRestart
