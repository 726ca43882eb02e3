import Triskelion.LinkPaths
import Triskelion.RegistryRoundTrip
import Mathlib.Data.List.Flatten

/-! Trees of plain names, as the server's own keys and clients with letters and digits
build them: every path fits a header line, and every string a value line. -/

namespace Triskelion.TidyTree
open KeyedTable RegistryKey RegistryWalk RegistryText RegistryLines RegistrySections List
  RegistryRoundTrip LinkPaths TextScan

/-- A key name of ASCII characters that splits neither a path nor a header line. -/
def NiceName (s : Str) : Prop :=
  s ≠ [] ∧ isAscii s ∧ '\n' ∉ s ∧ ']' ∉ s ∧ '\\' ∉ s

instance (s : Str) : Decidable (NiceName s) :=
  inferInstanceAs (Decidable (s ≠ [] ∧ isAscii s ∧ '\n' ∉ s ∧ ']' ∉ s ∧ '\\' ∉ s))

def NicePath (p : List Str) : Prop := ∀ s ∈ p, NiceName s

instance (p : List Str) : Decidable (NicePath p) := inferInstanceAs (Decidable (∀ s ∈ p, NiceName s))

variable {p path : List Str} {v : RegistryValue} {k n hive : RegistryKey}

theorem nicePath_append {q : List Str} : NicePath (p ++ q) ↔ NicePath p ∧ NicePath q :=
  forall_mem_append

variable {s : Str}

theorem nicePath_cons : NicePath (s :: p) ↔ NiceName s ∧ NicePath p :=
  forall_mem_cons

theorem not_mem_foldl_childPath {c : Char} (slash : c ≠ '\\') {rest : List Str}
    (names : ∀ s ∈ rest, c ∉ s) {path : Str} (before : c ∉ path) :
    c ∉ rest.foldl childPath path := by
  induction rest generalizing path with
  | nil => exact before
  | cons s rest ih =>
    have here := names s mem_cons_self
    refine ih (fun t mem => names t (mem_cons_of_mem _ mem)) ?_
    rw [childPath]
    split
    · exact here
    · simp [before, here, slash]

theorem cleanPath_of_nice (nice : NicePath p) : CleanPath p := by
  apply cleanPath_of
  · intro s mem
    obtain ⟨nonempty, -, -, bracket, slash⟩ := nice s mem
    refine ⟨nonempty, bracket, isChain_iff_getElem.mpr fun i bound both => slash ?_⟩
    exact both.1 ▸ getElem_mem _
  · intro s mem last
    exact (nice s (dropLast_subset _ mem)).2.2.2.2 (mem_of_getLast? last)

theorem pathText_inj {q : List Str} (nice : NicePath p) (nice' : NicePath q) (some_ : p ≠ [])
    (some' : q ≠ []) (same : pathText p = pathText q) : p = q := by
  have first := loadedPath_eq (cleanPath_of_nice nice) some_
  have second := loadedPath_eq (cleanPath_of_nice nice') some'
  rw [← first, ← second, loadedPath, loadedPath, same]

def targetOf (v : RegistryValue) : Option (List Str) :=
  if v.dataType = 6 then some (parseKeyPath v.data) else none

theorem noBreak_expand (plain : '\n' ∉ s) : '\n' ∉ unescapeRegString (trimQuotes (quoted s)) := by
  by_cases ends : s.getLast? = some '"'
  · obtain ⟨front, rfl⟩ := getLast?_eq_some_iff.mp ends
    rw [trimQuotes_quoted_quote, unescapeRegString_append]
    have inner : '\n' ∉ front := fun mem => plain (mem_append_left _ mem)
    simpa [unescapeRegString] using inner
  · rwa [trimQuotes_quoted ends, unescapeRegString_escape]

theorem oneLine_string (dataType : UInt32) (plain : '\n' ∉ s) :
    OneLine ⟨dataType, strToUtf16leNull s⟩ := by
  intro _
  rw [trimmedText_strToUtf16leNull]
  exact fun mem => plain (( rdropWhile_prefix _ _).subset mem)

theorem oneLine_loadedValue (oneLine : OneLine v) : OneLine (loadedValue v) := by
  rw [loadedValue]
  split
  · next plain => exact oneLine_string 1 (oneLine (.inl plain))
  · split
    · next expand => exact oneLine_string 2 (noBreak_expand (oneLine (.inr expand)))
    · split
      · simp [OneLine]
      · exact oneLine

theorem targetOf_loadedValue : targetOf (loadedValue v) = targetOf v := by
  by_cases link : v.dataType = 6
  · simp [loadedValue, targetOf, link]
  · rw [targetOf, loadedValue_dataType, if_neg link, targetOf, if_neg link]

section Nodes
variable [CaseMap]

structure TidyNode (n : RegistryKey) : Prop where
  distinct : Distinct n
  names : ∀ e ∈ n.children, NiceName e.1
  listed : ∀ m ∈ n.valueNames, '\n' ∉ m
  strings : ∀ e ∈ n.values, OneLine e.2
  targets : ∀ t, linkTarget n = some t → NicePath t

theorem linkTarget_eq : linkTarget n = (n.value linkName).bind targetOf := by
  rw [linkTarget]
  cases n.value linkName <;> rfl

structure TidyValue (name : Str) (v : RegistryValue) : Prop where
  noBreak : '\n' ∉ name
  oneLine : OneLine v
  target : lower name = lower linkName → ∀ t, targetOf v = some t → NicePath t

theorem tidyNode_new : TidyNode new :=
  ⟨⟨nodup_nil, nodup_nil⟩, by simp [new], by simp [new], by simp [new], by simp [linkTarget]⟩

theorem TidyNode.graft (tidy : TidyNode n) {seg : Str} (nice : NiceName seg)
    (g : Option RegistryKey → RegistryKey) :
    TidyNode { n with children := upsert lower seg g n.children } where
  __ := tidy
  distinct := ⟨nodup_upsert tidy.distinct.1 seg g, tidy.distinct.2⟩
  names e mem := by
    rcases mem_upsert mem with old | ⟨-, v, old, -⟩ | rfl
    · exact tidy.names e old
    · exact tidy.names (e.1, v) old
    · exact nice

theorem TidyNode.insert (tidy : TidyNode n) {name : Str} (value : TidyValue name v)
    {names : List Str} (listed : names ⊆ n.valueNames ++ [name]) :
    TidyNode { n with valueNames := names, values := KeyedTable.insert lower name v n.values } where
  distinct := ⟨tidy.distinct.1, nodup_upsert tidy.distinct.2 name _⟩
  names := tidy.names
  listed m mem := by
    rcases mem_append.mp (listed mem) with old | fresh
    · exact tidy.listed m old
    · exact mem_singleton.mp fresh ▸ value.noBreak
  strings e mem := by
    rcases mem_upsert mem with old | ⟨-, -, -, equal⟩ | rfl
    · exact tidy.strings e old
    · exact equal ▸ value.oneLine
    · exact value.oneLine
  targets t found := by
    rw [linkTarget_eq] at found
    by_cases link : lower linkName = lower name
    · have stored := value_setValue_same link v n
      rw [RegistryKey.value] at found
      rw [RegistryKey.value, RegistryKey.setValue] at stored
      rw [stored] at found
      exact value.target link.symm t found
    · have stored := value_setValue_other link v n
      rw [RegistryKey.value] at found
      rw [RegistryKey.value, RegistryKey.setValue] at stored
      rw [stored] at found
      exact tidy.targets t (by rw [linkTarget_eq]; exact found)

theorem TidyNode.setValue {n : RegistryKey} (tidy : TidyNode n) {name : Str} {v : RegistryValue}
    (value : TidyValue name v) : TidyNode (n.setValue name v) :=
  tidy.insert value (by split <;> simp)

theorem Everywhere.walkMutCreate {P : RegistryKey → Prop} (fresh : P new)
    (graft : ∀ n seg g, NiceName seg → P n → P { n with children := upsert lower seg g n.children })
    {f : RegistryKey → RegistryKey} (keeps : ∀ n, (f n).children = n.children)
    (edit : ∀ n, P n → P (f n)) (all : Everywhere P k) (nice : NicePath path) :
    Everywhere P (walkMutCreate path f k) := by
  induction path generalizing k with
  | nil =>
    intro p n found
    cases p with
    | nil => exact found ▸ edit k (all [] k rfl)
    | cons seg rest =>
      obtain ⟨c, mem, below⟩ := found
      rw [walkMutCreate, keeps] at mem
      exact all (seg :: rest) n ⟨c, mem, below⟩
  | cons s path ih =>
    obtain ⟨first, later⟩ := nicePath_cons.mp nice
    intro p n found
    cases p with
    | nil => exact found ▸ graft k s _ first (all [] k rfl)
    | cons seg rest =>
      obtain ⟨c, mem, below⟩ := found
      rcases mem_upsert mem with old | ⟨-, d, old, equal⟩ | new_
      · exact all (seg :: rest) n ⟨c, old, below⟩
      · simp only [Option.getD_some] at equal
        rw [equal] at below
        exact ih (all.child old) later rest n below
      · obtain ⟨rfl, rfl⟩ := Prod.mk.inj new_
        refine ih ?_ later rest n below
        rintro (_ | ⟨t, q⟩) m inside
        · exact inside ▸ fresh
        · obtain ⟨d, mem, -⟩ := inside
          cases mem

def Tidy (root : RegistryKey) : Prop := Everywhere TidyNode root

theorem tidy_new : Tidy new := by
  rintro (_ | ⟨t, q⟩) m inside
  · exact inside ▸ tidyNode_new
  · obtain ⟨d, mem, -⟩ := inside
    cases mem

variable {root : RegistryKey}

theorem Tidy.walkMutCreate (tidy : Tidy root) (nice : NicePath path) {f : RegistryKey → RegistryKey}
    (keeps : ∀ n, (f n).children = n.children) (edit : ∀ n, TidyNode n → TidyNode (f n)) :
    Tidy (walkMutCreate path f root) :=
  Everywhere.walkMutCreate tidyNode_new (fun _ _ g nice tidy => tidy.graft nice g) keeps edit tidy nice

theorem at_of_node (found : node p k = some n) : ∃ q, At q k n ∧ q.map lower = p.map lower := by
  induction p generalizing k with
  | nil => exact ⟨[], (Option.some.inj found).symm, rfl⟩
  | cons seg rest ih =>
    obtain ⟨c, inside, below⟩ := Option.bind_eq_some_iff.mp found
    obtain ⟨e, at_e, rfl⟩ := Option.map_eq_some_iff.mp inside
    obtain ⟨q, spelled, same⟩ := ih below
    exact ⟨e.1 :: q, ⟨e.2, find_mem at_e, spelled⟩, by
      rw [map_cons, map_cons, find_key at_e, same]⟩

theorem node_of_at (distinct : Everywhere Distinct k) (found : At p k n) : node p k = some n := by
  induction p generalizing k with
  | nil => exact congrArg some found.symm
  | cons seg rest ih =>
    obtain ⟨c, mem, below⟩ := found
    have inside : k.child seg = some c := by
      rw [child, KeyedTable.get, find_of_mem (distinct [] k rfl).1 mem]
      rfl
    rw [node_cons, inside]
    exact ih (distinct.child mem) below

theorem Tidy.distinct (tidy : Tidy root) : Everywhere Distinct root :=
  fun p n found => (tidy p n found).distinct

theorem Tidy.node {root : RegistryKey} (tidy : Tidy root) {p : List Str} {n : RegistryKey}
    (found : node p root = some n) : Tidy n := by
  obtain ⟨q, spelled, -⟩ := at_of_node found
  intro r m below
  exact tidy (q ++ r) m ((at_append q r m).mpr ⟨n, spelled, below⟩)

theorem Tidy.nicePath (tidy : Tidy k) (found : At p k n) : NicePath p := by
  induction p generalizing k with
  | nil => exact forall_mem_nil _
  | cons seg rest ih =>
    obtain ⟨c, mem, below⟩ := found
    exact nicePath_cons.mpr ⟨(tidy [] k rfl).names (seg, c) mem, ih (tidy.child mem) below⟩

theorem Tidy.followSymlink (tidy : Tidy root) (nice : NicePath path) :
    NicePath (followSymlink root path) := by
  rw [RegistryWalk.followSymlink]
  generalize 8 = rounds
  induction rounds generalizing path with
  | zero => exact nice
  | succ rounds ih =>
    rw [followRounds]
    split
    · exact nice
    · next resolved found =>
      obtain ⟨p, q, target, rfl, ⟨-, -, linked⟩, rfl⟩ := leads_of_substituteLink found
      obtain ⟨n, at_p, link⟩ := Option.bind_eq_some_iff.mp linked
      exact ih (nicePath_append.mpr ⟨(tidy.node at_p [] n rfl).targets target link,
        (nicePath_append.mp nice).2⟩)

end Nodes

section Sections
variable [CaseMap]

theorem mem_listedValues {e : Str × RegistryValue} (mem : e ∈ listedValues n) :
    e.1 ∈ n.valueNames ∧ n.value e.1 = some e.2 := by
  obtain ⟨m, listed, found⟩ := mem_filterMap.mp mem
  obtain ⟨v, stored, rfl⟩ := Option.map_eq_some_iff.mp found
  exact ⟨listed, stored⟩

theorem TidyNode.oneLine (tidy : TidyNode n) {name : Str} (stored : n.value name = some v) :
    OneLine v := by
  obtain ⟨e, found, rfl⟩ := Option.map_eq_some_iff.mp stored
  exact tidy.strings e (find_mem found)

variable {e : FileSection}

theorem Tidy.unbroken (tidy : Tidy hive) (mem : e ∈ hiveSections hive) :
    Unbroken e ∧ NicePath e.1 ∧ TidyNode e.2 := by
  obtain ⟨-, found, -⟩ := (mem_hiveSections hive e.1 e.2).mp mem
  have nice := tidy.nicePath found
  have node := tidy e.1 e.2 found
  have noBreak : '\n' ∉ pathText e.1 :=
    not_mem_foldl_childPath (by decide) (fun s mem => (nice s mem).2.2.1) (by simp)
  refine ⟨⟨noBreak, ?_, ?_⟩, nice, node⟩
  · exact fun v listed => node.listed v.1 (mem_listedValues listed).1
  · exact fun v listed => node.oneLine (mem_listedValues listed).2

theorem TidyNode.loadedValues (tidy : TidyNode n) {e : Str × RegistryValue}
    (mem : e ∈ loadedValues (listedValues n)) : TidyValue e.1 e.2 := by
  obtain ⟨f, listed, found⟩ := mem_filterMap.mp mem
  obtain ⟨text, -, rfl⟩ := Option.map_eq_some_iff.mp found
  obtain ⟨named, stored⟩ := mem_listedValues listed
  refine ⟨?_, oneLine_loadedValue (tidy.oneLine stored), ?_⟩
  · show '\n' ∉ loadedName f.1
    rw [loadedName]
    split
    · simp
    · exact tidy.listed f.1 named
  · intro link t target
    rw [targetOf_loadedValue] at target
    apply tidy.targets t
    rw [linkTarget_eq, value, ← loadedName_link link, ← value, stored]
    exact target

def readLine (line : Str) : Option (Str × RegistryValue) :=
  (splitValueLine line).bind fun s =>
    match parseData s.2 with
    | .ok (some v) => some (s.1, v)
    | _ => none

theorem readLine_valueLines :
    (valueLines n).filterMap readLine = loadedValues (listedValues n) := by
  rw [valueLines, filterMap_filterMap]
  apply filterMap_congr
  intro e _
  cases written : valueText e.2 with
  | none => rfl
  | some =>
    rw [Option.map_some, Option.bind_some, readLine, splitValueLine_nameText, Option.bind_some,
      parseData_valueText written]
    rfl

theorem valueLine_ne {line : Str} (mem : line ∈ valueLines n) :
    line ≠ [] ∧ ∀ path, line ≠ headerLine path := by
  obtain ⟨e, -, found⟩ := mem_filterMap.mp mem
  obtain ⟨text, -, rfl⟩ := Option.map_eq_some_iff.mp found
  obtain ⟨first, rest, starts, -⟩ := nameText_cons e.1
  refine ⟨by simp [starts], fun path equal => ?_⟩
  exact value_head ('=' :: text) (by rw [equal]; rfl)

def linesUnder (header : Str) (lines : List Str) : List Str :=
  (lines.dropWhile (· ≠ header)).tail.takeWhile (· ≠ [])

variable {es : List FileSection}

theorem linesUnder_sections (mem : e ∈ es) (only : ∀ f ∈ es, pathText f.1 = pathText e.1 → f = e) :
    linesUnder (headerLine (pathText e.1)) (es.flatMap sectionLines) = valueLines e.2 := by
  induction es with
  | nil => cases mem
  | cons f rest ih =>
    rw [flatMap_cons]
    by_cases same : pathText f.1 = pathText e.1
    · obtain rfl := only f mem_cons_self same
      have values : ∀ line ∈ valueLines f.2, decide (line ≠ []) := fun line inside =>
        decide_eq_true (valueLine_ne inside).1
      rw [linesUnder, sectionLines, keyLines, cons_append, cons_append,
        dropWhile_cons_of_neg (by simp), tail_cons, append_assoc, takeWhile_append_of_pos values]
      simp
    · have before : ∀ line ∈ sectionLines f, decide (line ≠ headerLine (pathText e.1)) := by
        intro line inside
        apply decide_eq_true
        rw [sectionLines, keyLines, mem_append, mem_cons, mem_singleton] at inside
        rcases inside with (rfl | value) | rfl
        · intro equal
          exact same (append_cancel_right (cons.inj equal).2)
        · exact (valueLine_ne value).2 _
        · exact cons_ne_nil _ _ |>.symm
      rw [linesUnder, dropWhile_append_of_pos before]
      have later : e ∈ rest := by
        rcases mem_cons.mp mem with rfl | later
        · exact absurd rfl same
        · exact later
      exact ih later fun g inside => only g (mem_cons_of_mem _ inside)

theorem header_of_mem {path : Str}
    (mem : headerLine path ∈ es.flatMap sectionLines) : ∃ e ∈ es, path = pathText e.1 := by
  obtain ⟨e, inside, line⟩ := mem_flatMap.mp mem
  rw [sectionLines, keyLines, mem_append, mem_cons, mem_singleton] at line
  rcases line with (equal | value) | empty
  · exact ⟨e, inside, append_cancel_right (cons.inj equal).2⟩
  · exact absurd rfl ((valueLine_ne value).2 path)
  · cases empty

theorem Tidy.only (tidy : Tidy hive) {f : FileSection} (mem : e ∈ hiveSections hive)
    (mem' : f ∈ hiveSections hive) (same : pathText f.1 = pathText e.1) : f = e := by
  obtain ⟨some_, found, -⟩ := (mem_hiveSections hive e.1 e.2).mp mem
  obtain ⟨some', found', -⟩ := (mem_hiveSections hive f.1 f.2).mp mem'
  obtain ⟨p, n⟩ := e
  obtain ⟨q, m⟩ := f
  obtain rfl : q = p := pathText_inj (tidy.nicePath found') (tidy.nicePath found) some' some_ same
  exact Prod.ext rfl (at_unique tidy.distinct found' found)

variable {rootPrefix : Str}

theorem Tidy.lines (tidy : Tidy hive) (noBreak : '\n' ∉ rootPrefix)
    (noReturn : '\r' ∉ rootPrefix) {text : Str} (saved : hiveText rootPrefix hive = some text) :
    lines text = fileHeader rootPrefix ++ (hiveSections hive).flatMap sectionLines := by
  have some_ : hive.children ≠ [] := fun none_ => by
    rw [hiveText, if_pos none_] at saved
    cases saved
  rw [hiveText_sections rootPrefix some_] at saved
  rw [← Option.some.inj saved, unlines, lines_unlines]
  intro line mem
  rcases mem_append.mp mem with first | later
  · exact fileHeader_whole noBreak noReturn first
  · obtain ⟨e, inside, mem⟩ := mem_flatMap.mp later
    exact sectionLines_whole (tidy.unbroken inside).1 mem

/-- Two tidy hives with the same text have the same sections, up to what is not written. -/
theorem same_sections {first second : RegistryKey} (tidy : Tidy first) (tidy' : Tidy second)
    (noBreak : '\n' ∉ rootPrefix) (noReturn : '\r' ∉ rootPrefix) {text : Str}
    (saved : hiveText rootPrefix first = some text)
    (saved' : hiveText rootPrefix second = some text) (mem : (p, n) ∈ hiveSections first) :
    ∃ m, (p, m) ∈ hiveSections second ∧
      loadedValues (listedValues m) = loadedValues (listedValues n) := by
  have same := append_cancel_left ((tidy.lines noBreak noReturn saved).symm.trans
      (tidy'.lines noBreak noReturn saved'))
  have header : headerLine (pathText p) ∈ (hiveSections first).flatMap sectionLines :=
    mem_flatMap.mpr ⟨(p, n), mem, mem_append_left _ mem_cons_self⟩
  rw [same] at header
  obtain ⟨⟨q, m⟩, mem', equal⟩ := header_of_mem header
  obtain ⟨some_, found, -⟩ := (mem_hiveSections first p n).mp mem
  obtain ⟨some', found', -⟩ := (mem_hiveSections second q m).mp mem'
  obtain rfl : p = q := pathText_inj (tidy.nicePath found) (tidy'.nicePath found') some_ some' equal
  refine ⟨m, mem', ?_⟩
  have lines := linesUnder_sections mem fun f inside => tidy.only mem inside
  have lines' := linesUnder_sections mem' fun f inside => tidy'.only mem' inside
  rw [← readLine_valueLines, ← readLine_valueLines, ← lines, ← lines', same]

end Sections

section Order

theorem pair_sublist {α : Type} {r : α → α → Prop} {l : List α} (sorted : l.Pairwise r) {x y : α}
    (hx : x ∈ l) (hy : y ∈ l) (apart : x ≠ y) (not_ : ¬ r y x) : [x, y].Sublist l := by
  induction l with
  | nil => cases hx
  | cons a l ih =>
    obtain ⟨first, later⟩ := pairwise_cons.mp sorted
    rcases mem_cons.mp hx with rfl | hx'
    · have inside := (mem_cons.mp hy).resolve_left (Ne.symm apart)
      exact (singleton_sublist.mpr inside).cons_cons _
    · rcases mem_cons.mp hy with rfl | hy'
      · exact absurd (first x hx') not_
      · exact (ih later hx' hy').cons a

theorem pair_sublist_flatMap {α β : Type} {f : α → List β} {l : List α} {a b : α}
    (pair : [a, b].Sublist l) {x y : β} (hx : x ∈ f a) (hy : y ∈ f b) :
    [x, y].Sublist (l.flatMap f) := by
  have both : [x, y].Sublist ([a, b].flatMap f) := by
    rw [flatMap_cons, flatMap_cons, flatMap_nil, append_nil]
    exact (singleton_sublist.mpr hx).append (singleton_sublist.mpr hy)
  exact both.trans (pair.flatMap f)

variable [CaseMap]

theorem pairwise_sortedChildren :
    k.sortedChildren.Pairwise fun a b => strLe (lower a.1) (lower b.1) := by
  have total : Std.Total fun a b : Str × RegistryKey => strLe (lower a.1) (lower b.1) :=
    ⟨fun a b => strLe_total _ _⟩
  have trans : IsTrans (Str × RegistryKey) fun a b => strLe (lower a.1) (lower b.1) :=
    ⟨fun a b c => strLe_trans⟩
  exact pairwise_insertionSort _ _

theorem pair_sublist_keySections (kept : skipsKey (pathText path) = false) {a b : Str × RegistryKey}
    (ha : a ∈ k.children) (hb : b ∈ k.children) (before : strLe (lower b.1) (lower a.1) = false)
    (kept_a : skipsKey (pathText (path ++ [a.1])) = false)
    (kept_b : skipsKey (pathText (path ++ [b.1])) = false) :
    [([a.1], a.2), ([b.1], b.2)].Sublist (keySections k path) := by
  have own : ∀ e : Str × RegistryKey, skipsKey (pathText (path ++ [e.1])) = false →
      ([e.1], e.2) ∈ sectionsOf path e := by
    intro e kept_e
    rw [sectionsOf, keySections_eq, kept_e]
    exact mem_map.mpr ⟨([], e.2), mem_cons_self, rfl⟩
  have apart : a ≠ b := by
    rintro rfl
    rcases strLe_total (lower a.1) (lower a.1) with same | same <;> rw [before] at same <;> cases same
  have sorted := pair_sublist pairwise_sortedChildren ((mem_insertionSort _).mpr ha)
      ((mem_insertionSort _).mpr hb) apart (by rw [before]; exact Bool.false_ne_true)
  rw [keySections_eq, kept]
  exact (pair_sublist_flatMap sorted (own a kept_a) (own b kept_b)).cons _

theorem nodup_keySections (distinct : Everywhere Distinct k) (path : List Str) :
    ((keySections k path).map fun e => e.1.map lower).Nodup := by
  induction k using induction generalizing path with
  | step k ih =>
    rw [keySections_eq]
    split
    · exact nodup_nil
    · have names : (keys lower k.sortedChildren).Nodup :=
        ((perm_insertionSort _ _).map _).nodup_iff.mpr (distinct [] k rfl).1
      have below : ∀ e, (sectionsOf path e).map (fun f => f.1.map lower) =
          ((keySections e.2 (path ++ [e.1])).map fun f => f.1.map lower).map (lower e.1 :: ·) := by
        intro e
        rw [sectionsOf, map_map, map_map]
        rfl
      rw [map_cons, map_flatMap, nodup_cons, nodup_flatMap]
      refine ⟨?_, fun e mem => ?_, ?_⟩
      · simp [below]
      · rw [below]
        have inside := (mem_insertionSort _).mp mem
        exact (ih e inside (distinct.child inside) _).map fun _ _ equal => (cons.inj equal).2
      · refine (pairwise_map.mp names).imp fun {a b} apart => ?_
        change List.Disjoint ((sectionsOf path a).map fun f => f.1.map lower)
          ((sectionsOf path b).map fun f => f.1.map lower)
        rw [below, below]
        intro l first second
        obtain ⟨p, -, rfl⟩ := mem_map.mp first
        obtain ⟨q, -, equal⟩ := mem_map.mp second
        exact apart (cons.inj equal).1.symm

theorem nodup_hiveSections (distinct : Everywhere Distinct hive) :
    ((hiveSections hive).map fun e => e.1.map lower).Nodup := by
  have all := nodup_keySections distinct []
  rw [keySections_hive, map_cons, nodup_cons] at all
  exact all.2

end Order
end Triskelion.TidyTree
