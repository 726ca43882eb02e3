import Triskelion.RegistrySections

/-! A hive after its file is loaded into an empty registry. Where no name and no string
has a line break, the loaded hive is the saved one exactly when every name survives the
header and value lines and every value is of the form its line stands for. -/

namespace Triskelion.RegistryRoundTrip
open KeyedTable RegistryKey RegistryWalk RegistryText RegistryLines RegistrySections TextScan List
  Utf16Text
open Option (bind_eq_some_iff map_eq_some_iff)

variable {path : List Str} {s m : Str} {k n : RegistryKey} {e : Str × RegistryValue}
  {values : List (Str × RegistryValue)}

section Paths

/-- A name that a header line can carry. -/
structure CleanSegment (s : Str) : Prop where
  nonempty : s ≠ []
  noBracket : ']' ∉ s
  single : s.IsChain fun x y => ¬ (x = '\\' ∧ y = '\\')

def CleanPath : List Str → Prop
  | [] => True
  | s :: rest => CleanSegment s ∧ (rest ≠ [] → s.getLast? ≠ some '\\') ∧ CleanPath rest

theorem CleanPath.segments (clean : CleanPath path) (mem : s ∈ path) : CleanSegment s := by
  induction path with
  | nil => cases mem
  | cons t rest ih =>
    rcases mem_cons.mp mem with rfl | later
    · exact clean.1
    · exact ih clean.2.2 later

theorem CleanPath.ends (clean : CleanPath path) (mem : s ∈ path.dropLast) :
    s.getLast? ≠ some '\\' := by
  induction path with
  | nil => cases mem
  | cons t rest ih =>
    cases rest with
    | nil => cases mem
    | cons u rest =>
      rcases mem_cons.mp mem with rfl | later
      · exact clean.2.1 (cons_ne_nil _ _)
      · exact ih clean.2.2 later

theorem cleanPath_of (segments : ∀ s ∈ path, CleanSegment s)
    (ends : ∀ s ∈ path.dropLast, s.getLast? ≠ some '\\') : CleanPath path := by
  induction path with
  | nil => trivial
  | cons s rest ih =>
    refine ⟨segments s mem_cons_self, ?_, ih (fun t mem => segments t (mem_cons_of_mem _ mem)) ?_⟩
    · intro more
      cases rest with
      | nil => exact absurd rfl more
      | cons t rest => exact ends s mem_cons_self
    · intro t mem
      cases rest with
      | nil => cases mem
      | cons u rest => exact ends t (mem_cons_of_mem _ mem)

variable {rest : List Str}

theorem foldl_childPath {path : Str} (nonempty : path ≠ []) :
    rest.foldl childPath path = path ++ rest.flatMap fun t => '\\' :: '\\' :: t := by
  induction rest generalizing path with
  | nil => simp
  | cons s rest ih =>
    rw [foldl_cons, childPath, if_neg nonempty, ih (by simp), flatMap_cons, append_assoc]

theorem pathText_cons (nonempty : s ≠ []) :
    pathText (s :: rest) = s ++ rest.flatMap fun t => '\\' :: '\\' :: t := by
  rw [pathText, foldl_cons, childPath, if_pos rfl, foldl_childPath nonempty]

theorem bracket_not_mem_pathText (clean : CleanPath path) : ']' ∉ pathText path := by
  cases path with
  | nil => simp [pathText]
  | cons s rest =>
    rw [pathText_cons clean.1.nonempty, mem_append, mem_flatMap, not_or]
    refine ⟨clean.1.noBracket, ?_⟩
    rintro ⟨t, tail, inside⟩
    simp only [mem_cons, Char.reduceEq, false_or] at inside
    exact (clean.2.2.segments tail).noBracket inside

theorem loadedPath_eq (clean : CleanPath path) (nonempty : path ≠ []) : loadedPath path = path := by
  have bracket := bracket_not_mem_pathText clean
  have taken : ((headerLine (pathText path)).tail.takeWhile fun c => c ≠ ']') = pathText path := by
    show (pathText path ++ "] 1773790329".toList).takeWhile _ = _
    rw [takeWhile_append_of_pos (fun c mem => by
      simpa using fun equal : c = ']' => bracket (equal ▸ mem))]
    simp
  cases path with
  | nil => exact absurd rfl nonempty
  | cons s rest =>
    rw [loadedPath, headerSegments, taken, pathText_cons clean.1.nonempty,
      splitDouble_join (fun t mem => (clean.segments mem).single) (fun t mem => clean.ends mem),
      filter_eq_self]
    intro t mem
    simpa using (clean.segments mem).nonempty

theorem mem_dropLast_of_filter {α : Type} {q : α → Bool} {l : List α} {a : α}
    (mem : a ∈ (l.filter q).dropLast) : a ∈ l.dropLast := by
  rcases eq_nil_or_concat l with rfl | ⟨front, b, rfl⟩
  · cases mem
  · rw [concat_eq_append] at mem ⊢
    rw [dropLast_concat]
    rw [filter_append] at mem
    cases last : q b with
    | true =>
      rw [filter_cons_of_pos last, filter_nil, dropLast_concat] at mem
      exact mem_of_mem_filter mem
    | false =>
      rw [filter_cons_of_neg (by simp [last]), filter_nil, append_nil] at mem
      exact mem_of_mem_filter (dropLast_subset _ mem)

theorem cleanPath_loadedPath : CleanPath (loadedPath path) := by
  rw [loadedPath, headerSegments]
  have open_ : ']' ∉ (headerLine (pathText path)).tail.takeWhile fun c => c ≠ ']' := fun mem => by
    simpa using mem_takeWhile_imp mem
  generalize (headerLine (pathText path)).tail.takeWhile _ = text at open_
  obtain ⟨s, rest, equal, joined, single, ends⟩ := splitDouble_spec '\\' text
  rw [equal]
  apply cleanPath_of
  · intro t mem
    obtain ⟨inside, nonempty⟩ := mem_filter.mp mem
    refine ⟨by simpa using nonempty, fun bracket => open_ ?_, single t inside⟩
    rw [joined, mem_append, mem_flatMap]
    rcases mem_cons.mp inside with rfl | later
    · exact .inl bracket
    · exact .inr ⟨t, later, mem_cons_of_mem _ (mem_cons_of_mem _ bracket)⟩
  · intro t mem
    exact ends t (mem_dropLast_of_filter mem)

def CleanTree (k : RegistryKey) : Prop := ∀ p n, At p k n → CleanPath p

theorem cleanTree_new : CleanTree new := by
  rintro (_ | ⟨seg, rest⟩) n found
  · trivial
  · obtain ⟨c, mem, -⟩ := found
    cases mem

end Paths

section Keys
variable [CaseMap]

variable {f : RegistryKey → RegistryKey}

theorem CleanTree.walkMutCreate (clean : CleanTree k) (cleanPath : CleanPath path)
    (keeps : ∀ n, (f n).children = n.children) : CleanTree (walkMutCreate path f k) := by
  induction path generalizing k with
  | nil =>
    rintro (_ | ⟨seg, rest⟩) n found
    · trivial
    · obtain ⟨c, mem, below⟩ := found
      rw [walkMutCreate, keeps] at mem
      exact clean (seg :: rest) n ⟨c, mem, below⟩
  | cons s path ih =>
    rintro (_ | ⟨seg, rest⟩) n found
    · trivial
    · obtain ⟨c, mem, below⟩ := found
      rcases mem_upsert mem with old | ⟨same, d, old, equal⟩ | fresh
      · exact clean (seg :: rest) n ⟨c, old, below⟩
      · have inner : CleanTree d := fun p m at_p => (clean (seg :: p) m ⟨d, old, at_p⟩).2.2
        have here := clean [seg] d ⟨d, old, rfl⟩
        subst equal
        refine ⟨here.1, fun more => ?_, ih inner cleanPath.2.2 rest n below⟩
        cases path with
        | nil =>
          cases rest with
          | nil => exact absurd rfl more
          | cons t rest =>
            obtain ⟨e, mem, at_e⟩ := below
            rw [walkMutCreate, keeps] at mem
            exact (clean (seg :: t :: rest) n ⟨d, old, e, mem, at_e⟩).2.1 more
        | cons t path =>
          have ends := cleanPath.2.1 (cons_ne_nil _ _)
          rw [ne_eq, ← CaseMap.lower_backslash] at ends ⊢
          rwa [same]
      · obtain ⟨rfl, rfl⟩ := Prod.mk.inj fresh
        refine ⟨cleanPath.1, fun more => ?_, ih cleanTree_new cleanPath.2.2 rest n below⟩
        cases path with
        | nil =>
          cases rest with
          | nil => exact absurd rfl more
          | cons t rest =>
            obtain ⟨e, mem, -⟩ := below
            rw [walkMutCreate, keeps] at mem
            cases mem
        | cons t path => exact cleanPath.2.1 (cons_ne_nil _ _)

theorem cleanTree_build {es : List FileSection} (clean : ∀ e ∈ es, CleanPath e.1)
    (start : CleanTree k) : CleanTree (build k es) := by
  induction es generalizing k with
  | nil => exact start
  | cons e rest ih =>
    exact ih (fun e mem => clean e (mem_cons_of_mem _ mem))
      (start.walkMutCreate (clean e mem_cons_self) (children_storeAll _))

theorem at_under (rs p : List Str) (m : RegistryKey) :
    At (rs ++ p) (walkMutCreate rs f new) m ↔ At p (f new) m := by
  induction rs with
  | nil => rfl
  | cons seg rest ih =>
    rw [← ih]
    simp [At, walkMutCreate, upsert, new]

end Keys

section Values

/-- A value that its line stands for: a string is stored with one terminator, and an
expandable one does not end in a quote; a `REG_DWORD` has four bytes. -/
def Exact (v : RegistryValue) : Prop :=
  if v.dataType = 1 then strToUtf16leNull (trimmedText v.data) = v.data
  else if v.dataType = 2 then
    strToUtf16leNull (trimmedText v.data) = v.data ∧ (trimmedText v.data).getLast? ≠ some '"'
  else if v.dataType = 4 then v.data.length = 4
  else True

instance (v : RegistryValue) : Decidable (Exact v) := by
  rw [Exact]
  infer_instance

theorem getLast?_escapeText (s : Str) : (escapeText s).getLast? = s.getLast? := by
  rcases eq_nil_or_concat s with rfl | ⟨before, c, rfl⟩
  · rfl
  · rw [concat_eq_append, escapeText_append, escapeText_cons, escapeText_nil, escapeChar]
    split
    · next slash => simp [slash]
    · split
      · next quote => simp [quote]
      · simp

theorem head?_escapeText (s : Str) : (escapeText s).head? ≠ some '"' := by
  cases s with
  | nil => simp [escapeText_nil]
  | cons c s =>
    rw [escapeText_cons, escapeChar]
    split
    · simp
    · split
      · simp
      · next quote => simpa using quote

theorem trimQuotes_quoted (ends : s.getLast? ≠ some '"') :
    trimQuotes (quoted s) = escapeText s := by
  have first := head?_escapeText s
  have last := getLast?_escapeText s
  rw [← last] at ends
  rw [trimQuotes, quoted]
  generalize escapeText s = t at *
  cases t with
  | nil => rfl
  | cons c t =>
    have opened : c ≠ '"' := by simpa using first
    rw [cons_append, dropWhile_cons_of_pos (by rfl), cons_append,
      dropWhile_cons_of_neg (by simpa using opened), ← cons_append,
      rdropWhile_concat_pos _ _ _ (by rfl), rdropWhile_eq_self_iff]
    intro nonempty closed
    exact ends (congrArg some (by simpa using closed))

/-- A quote at the end is taken for the closing one, its backslash stays. -/
theorem trimQuotes_quoted_quote (s : Str) :
    trimQuotes (quoted (s ++ ['"'])) = escapeText s ++ ['\\'] := by
  have first := head?_escapeText s
  have text : quoted (s ++ ['"']) = '"' :: ((escapeText s ++ ['\\']) ++ ['"', '"']) := by
    rw [quoted, escapeText_append]
    simp [escapeText_cons, escapeText_nil, escapeChar]
  have start : ((escapeText s ++ ['\\']) ++ ['"', '"']).dropWhile (· == '"') =
      (escapeText s ++ ['\\']) ++ ['"', '"'] := by
    cases equal : escapeText s with
    | nil => rfl
    | cons c t =>
      rw [equal] at first
      exact dropWhile_cons_of_neg (by simpa using first)
  rw [trimQuotes, text, dropWhile_cons_of_pos (by rfl), start,
    append_cons (escapeText s ++ ['\\']) '"' ['"'], rdropWhile_concat_pos _ _ _ (by rfl),
    rdropWhile_concat_pos _ _ _ (by rfl), rdropWhile_concat_neg _ _ _ (by decide)]

theorem trimmedText_strToUtf16leNull (s : Str) :
    trimmedText (strToUtf16leNull s) = s.rdropWhile (· == '\x00') := by
  have units : encodeUtf16 s ++ [0] = encodeUtf16 (s ++ ['\x00']) := by
    rw [encodeUtf16, encodeUtf16, flatMap_append]
    rfl
  rw [trimmedText, strToUtf16leNull, ofLeBytes_leBytes, units, fromUtf16Lossy_encodeUtf16,
    rdropWhile_concat_pos _ _ _ (by rfl)]

/-- An expandable string that ends in a quote comes back ending in a backslash. -/
theorem expand_iff (data : List UInt8) :
    strToUtf16leNull (unescapeRegString (trimQuotes (quoted (trimmedText data)))) = data ↔
      strToUtf16leNull (trimmedText data) = data ∧ (trimmedText data).getLast? ≠ some '"' := by
  by_cases ends : (trimmedText data).getLast? = some '"'
  · simp only [ends, ne_eq, not_true_eq_false, and_false, iff_false]
    intro equal
    obtain ⟨s, text⟩ := getLast?_eq_some_iff.mp ends
    rw [text, trimQuotes_quoted_quote, unescapeRegString_append] at equal
    have back := trimmedText_strToUtf16leNull (s ++ ['\\'])
    rw [rdropWhile_concat_neg _ _ _ (by decide)] at back
    have other : trimmedText data = s ++ ['\\'] := by
      rw [← equal]
      exact back
    rw [other, getLast?_concat] at ends
    exact absurd ends (by decide)
  · rw [trimQuotes_quoted ends, unescapeRegString_escape, and_iff_left ends]

variable {v : RegistryValue}

theorem exact_iff : (valueText v).isSome ∧ loadedValue v = v ↔ Exact v := by
  obtain ⟨dataType, data⟩ := v
  simp only [valueText, loadedValue, Exact]
  split
  · next plain => simp [plain]
  · split
    · next expand => simp [expand, expand_iff]
    · split
      · next dword =>
        rcases data with _ | ⟨a, _ | ⟨b, _ | ⟨c, _ | ⟨d, rest⟩⟩⟩⟩ <;> simp [dword]
      · simp

theorem loadedName_ne (name : Str) : loadedName name ≠ ['@'] := by
  rw [loadedName]
  split
  · simp
  · assumption

variable [CaseMap]

/-- Every stored value is one its line stands for, and is listed first as it is spelled. -/
def ValuesKept (n : RegistryKey) : Prop :=
  ∀ e ∈ n.values, e.1 ≠ ['@'] ∧ Exact e.2 ∧
    n.valueNames.find? (fun m => lower m = lower e.1) = some e.1

instance (n : RegistryKey) : Decidable (ValuesKept n) :=
  inferInstanceAs (Decidable (∀ e ∈ n.values, e.1 ≠ ['@'] ∧ Exact e.2 ∧
    n.valueNames.find? (fun m => lower m = lower e.1) = some e.1))

def loadedListing (n : RegistryKey) (m : Str) : Option (Str × RegistryValue) :=
  (n.value m).bind fun v => (valueText v).map fun _ => (loadedName m, loadedValue v)

theorem loadedValues_listed :
    loadedValues (listedValues n) = n.valueNames.filterMap (loadedListing n) := by
  rw [loadedValues, listedValues, filterMap_filterMap]
  apply filterMap_congr
  intro m _
  rw [loadedListing]
  cases n.value m <;> rfl

theorem find_storeAll {g : Str} (agree : ∀ e ∈ values, lower e.1 = g → e.2 = v) (n : RegistryKey) :
    find lower g (storeAll values n).values =
      match values.find? fun e => lower e.1 = g with
      | none => find lower g n.values
      | some e => some (((find lower g n.values).map Prod.fst).getD e.1, v) := by
  induction values generalizing n with
  | nil => rfl
  | cons e rest ih =>
    have later := ih (fun f mem => agree f (mem_cons_of_mem _ mem)) (n.setValue e.1 e.2)
    show find lower g (storeAll rest (n.setValue e.1 e.2)).values = _
    rw [later]
    by_cases here : lower e.1 = g
    · have set : find lower g (n.setValue e.1 e.2).values =
          some (((find lower g n.values).map Prod.fst).getD e.1, v) := by
        rw [← agree e mem_cons_self here, ← here]
        exact find_upsert_self e.1 _
      rw [find?_cons_of_pos (by simpa using here), set]
      cases rest.find? fun e => lower e.1 = g <;> rfl
    · have set : find lower g (n.setValue e.1 e.2).values = find lower g n.values :=
        find_upsert_ne (Ne.symm here) _
      rw [find?_cons_of_neg (by simpa using here), set]

/-- No name is stored that a value line would take for the default one. -/
def NamesKept (n : RegistryKey) : Prop := ∀ e ∈ n.values, e.1 ≠ ['@']

theorem stored_ne_at (names : NamesKept n) (stored : n.value m = some v) : m ≠ ['@'] := by
  rintro rfl
  obtain ⟨e, found, -⟩ := map_eq_some_iff.mp stored
  refine names e (find_mem found) (CaseMap.lower_at _ ?_)
  rw [find_key found, lower_eq (by decide)]
  rfl

theorem value_of_mem (nodup : (keys lower n.values).Nodup) (mem : e ∈ n.values)
    (same : lower m = lower e.1) : n.value m = some e.2 := by
  rw [value, same, KeyedTable.get, find_of_mem nodup mem]
  rfl

theorem loadedListing_eq (names : NamesKept n) : loadedListing n m =
      (n.value m).bind fun v => (valueText v).map fun _ => (m, loadedValue v) := by
  rw [loadedListing]
  cases stored : n.value m with
  | none => rfl
  | some => rw [loadedName, if_neg (stored_ne_at names stored)]

theorem name_of_loadedListing (names : NamesKept n) {f : Str × RegistryValue}
    (loaded : loadedListing n m = some f) : f.1 = m := by
  rw [loadedListing_eq names] at loaded
  obtain ⟨v, -, written⟩ := bind_eq_some_iff.mp loaded
  obtain ⟨text, -, rfl⟩ := map_eq_some_iff.mp written
  rfl

theorem find_restoredValues (nodup : (keys lower n.values).Nodup) (names : NamesKept n)
    (mem : e ∈ n.values) : find lower (lower e.1) (restoredValues n).values =
      (n.valueNames.find? fun m => lower m = lower e.1).bind fun m =>
        (valueText e.2).map fun _ => (m, loadedValue e.2) := by
  have listing : ∀ m, lower m = lower e.1 →
      loadedListing n m = (valueText e.2).map fun _ => (m, loadedValue e.2) := by
    intro m same
    rw [loadedListing_eq names, value_of_mem nodup mem same, Option.bind_some]
  have agree : ∀ f ∈ loadedValues (listedValues n), lower f.1 = lower e.1 →
      f.2 = loadedValue e.2 := by
    intro f inside same
    rw [loadedValues_listed] at inside
    obtain ⟨m, -, loaded⟩ := mem_filterMap.mp inside
    rw [listing m (name_of_loadedListing names loaded ▸ same)] at loaded
    obtain ⟨text, -, rfl⟩ := map_eq_some_iff.mp loaded
    rfl
  have first : ∀ m, ((loadedListing n m).any fun f => lower f.1 = lower e.1) =
      ((valueText e.2).isSome && decide (lower m = lower e.1)) := by
    intro m
    by_cases same : lower m = lower e.1
    · rw [listing m same]
      cases valueText e.2 <;> simp [same]
    · cases loaded : loadedListing n m with
      | none => simp [same]
      | some => simp [name_of_loadedListing names loaded, same]
  rw [restoredValues, find_storeAll agree, loadedValues_listed, find?_filterMap]
  simp only [first]
  cases written : valueText e.2 with
  | none =>
    have none_ : n.valueNames.find? (fun _ => false) = none := find?_eq_none.mpr (by simp)
    simp [none_, new, find]
  | some =>
    simp only [Option.isSome_some, Bool.true_and]
    cases found : n.valueNames.find? fun m => lower m = lower e.1 with
    | none => rfl
    | some m =>
      have same : lower m = lower e.1 := by simpa using find?_some found
      rw [Option.bind_some, listing m same, written]
      rfl

theorem name_of_mem_storeAll (mem : e ∈ (storeAll values n).values) :
    (∃ f ∈ values, f.1 = e.1) ∨ ∃ f ∈ n.values, f.1 = e.1 := by
  induction values generalizing n with
  | nil => exact .inr ⟨e, mem, rfl⟩
  | cons a rest ih =>
    rcases ih mem with ⟨f, inside, equal⟩ | ⟨f, inside, equal⟩
    · exact .inl ⟨f, mem_cons_of_mem _ inside, equal⟩
    · rcases mem_upsert inside with old | ⟨-, v, old, -⟩ | rfl
      · exact .inr ⟨f, old, equal⟩
      · exact .inr ⟨(f.1, v), old, equal⟩
      · exact .inl ⟨a, mem_cons_self, equal⟩

theorem nodup_restoredValues : (keys lower (restoredValues n).values).Nodup :=
  storeAll_induction (P := fun n => (keys lower n.values).Nodup) (fun e _ _ nodup => nodup_upsert nodup e.1 _) nodup_nil

theorem mem_restoredValues (nodup : (keys lower n.values).Nodup) (kept : ValuesKept n)
    : e ∈ (restoredValues n).values ↔ e ∈ n.values := by
  have names : NamesKept n := fun e mem => (kept e mem).1
  have entry : ∀ f ∈ n.values, find lower (lower f.1) (restoredValues n).values = some f := by
    intro f mem
    obtain ⟨-, exact_, listed⟩ := kept f mem
    obtain ⟨written, equal⟩ := exact_iff.mpr exact_
    obtain ⟨text, written⟩ := Option.isSome_iff_exists.mp written
    rw [find_restoredValues nodup names mem, listed, written, equal]
    rfl
  constructor
  · intro mem
    have found := find_of_mem nodup_restoredValues mem
    obtain ⟨f, inside, equal⟩ | ⟨f, inside, -⟩ := name_of_mem_storeAll mem
    · rw [loadedValues_listed] at inside
      obtain ⟨m, -, loaded⟩ := mem_filterMap.mp inside
      have spelled := name_of_loadedListing names loaded
      obtain ⟨v, stored, -⟩ := bind_eq_some_iff.mp loaded
      obtain ⟨s, at_s, -⟩ := map_eq_some_iff.mp stored
      have same : lower s.1 = lower e.1 := by rw [find_key at_s, ← spelled, equal]
      rw [← same, entry s (find_mem at_s)] at found
      exact Option.some.inj found ▸ find_mem at_s
    · cases inside
  · intro mem
    exact find_mem (entry e mem)

theorem valuesKept_of_mem (nodup : (keys lower n.values).Nodup)
    (loaded : ∀ e ∈ n.values, e ∈ (restoredValues n).values) : ValuesKept n := by
  have names : NamesKept n := by
    intro e mem
    obtain ⟨f, inside, equal⟩ | ⟨f, inside, -⟩ := name_of_mem_storeAll (loaded e mem)
    · rw [loadedValues_listed] at inside
      obtain ⟨m, -, listed⟩ := mem_filterMap.mp inside
      obtain ⟨v, -, written⟩ := bind_eq_some_iff.mp listed
      obtain ⟨text, -, rfl⟩ := map_eq_some_iff.mp written
      exact equal ▸ loadedName_ne m
    · cases inside
  intro e mem
  have found := find_of_mem nodup_restoredValues (loaded e mem)
  rw [find_restoredValues nodup names mem] at found
  obtain ⟨m, listed, written⟩ := bind_eq_some_iff.mp found
  obtain ⟨text, written, equal⟩ := map_eq_some_iff.mp written
  refine ⟨names e mem, exact_iff.mp ⟨by rw [written]; rfl, ?_⟩, ?_⟩
  · exact congrArg Prod.snd equal
  · rw [listed]
    exact congrArg (fun f => some f.1) equal

end Values

section Links
variable [CaseMap]

def Unlinked (n : RegistryKey) : Prop := linkTarget n = none

theorem unlinked_iff : Unlinked n ↔ ∀ v, n.value linkName = some v → v.dataType ≠ 6 := by
  rw [Unlinked, linkTarget]
  cases n.value linkName with
  | none | some => simp

theorem unlinked_storeAll (plain : ∀ e ∈ values, lower e.1 = lower linkName → e.2.dataType ≠ 6)
    (start : Unlinked n) : Unlinked (storeAll values n) := by
  refine storeAll_induction (fun e mem n start => ?_) start
  rw [unlinked_iff] at start ⊢
  intro v found
  by_cases link : lower linkName = lower e.1
  · rw [value_setValue_same link] at found
    rw [← Option.some.inj found]
    exact plain e mem link.symm
  · rw [value_setValue_other link] at found
    exact start v found

theorem loadedName_link (same : lower (loadedName m) = lower linkName) :
    lower m = lower linkName := by
  rw [loadedName] at same
  split at same
  · rw [lower_eq (by decide), lower_eq (by decide)] at same
    exact absurd same (by decide)
  · exact same

theorem loadedValues_unlinked (unlinked : Unlinked n) (mem : e ∈ loadedValues (listedValues n))
    (link : lower e.1 = lower linkName) : e.2.dataType ≠ 6 := by
  rw [loadedValues_listed] at mem
  obtain ⟨m, -, loaded⟩ := mem_filterMap.mp mem
  obtain ⟨v, stored, written⟩ := bind_eq_some_iff.mp loaded
  obtain ⟨text, -, rfl⟩ := map_eq_some_iff.mp written
  rw [loadedValue_dataType]
  apply unlinked_iff.mp unlinked
  rw [← stored, value, value, loadedName_link link]

theorem substituteLink_unlinked (unlinked : AllNodes Unlinked k) :
    substituteLink k path = none := by
  induction path generalizing k with
  | nil => rfl
  | cons seg rest ih =>
    rw [substituteLink]
    cases inside : k.child seg with
    | none => rfl
    | some n =>
      have here : linkTarget n = none := unlinked [seg] n (by rw [node_cons, inside]; rfl)
      have below : AllNodes Unlinked n := fun q m found =>
        unlinked (seg :: q) m (by rw [node_cons, inside]; exact found)
      simp only [here]
      exact ih below

theorem followSymlink_unlinked (unlinked : AllNodes Unlinked k) : followSymlink k path = path := by
  rw [followSymlink, followRounds, substituteLink_unlinked unlinked]

theorem foldl_loadSection (rs : List Str) {es : List FileSection}
    (sections : ∀ e ∈ es, Unlinked e.2) {root : RegistryKey} (unlinked : AllNodes Unlinked root) :
    es.foldl (loadSection rs) root =
      build root (es.map fun e => absolute rs (loadedPath e.1, e.2)) := by
  induction es generalizing root with
  | nil => rfl
  | cons e rest ih =>
    have first : loadSection rs root e = plainSection root (absolute rs (loadedPath e.1, e.2)) := by
      rw [loadSection, followSymlink_unlinked unlinked]
      rfl
    rw [foldl_cons, first]
    apply ih fun e mem => sections e (mem_cons_of_mem _ mem)
    apply unlinked.walkMutCreate (rfl : Unlinked new) (fun n seg _ g here => here)
      (child_of_children_eq (children_storeAll _))
    apply unlinked_storeAll fun f => loadedValues_unlinked (sections e mem_cons_self)
    cases found : node (absolute rs (loadedPath e.1, e.2)).1 root with
    | none => rfl
    | some n => exact unlinked _ n found

end Links

section RoundTrip
variable [CaseMap]

structure Hive where
  key : RegistryKey
  distinct : Everywhere Distinct key
  unlinked : Everywhere Unlinked key

def Written (hive : Hive) (p : List Str) (n : RegistryKey) : Prop :=
  p ≠ [] ∧ At p hive.key n ∧ Kept p

/-- The loaded tree has the keys and the values of the hive, and no others below the root of
the file; the keys that are left out on purpose are exempt. -/
def RoundTrips (rootPrefix : Str) (hive : Hive) : Prop :=
  ∀ text, hiveText rootPrefix hive.key = some text → (loadRegFile new text rootPrefix).2 = none ∧
    ∀ p, p ≠ [] → ((∃ m, At (splitPath rootPrefix ++ p) (loadRegFile new text rootPrefix).1 m) ↔
        ∃ n, Written hive p n) ∧
      ∀ e, (∃ m, At (splitPath rootPrefix ++ p) (loadRegFile new text rootPrefix).1 m ∧
          e ∈ m.values) ↔ ∃ n, Written hive p n ∧ e ∈ n.values

variable {p : List Str} {hive : Hive}

theorem at_unique (distinct : Everywhere Distinct k) {m : RegistryKey} (first : At p k n)
    (second : At p k m) : n = m := by
  induction p generalizing k with
  | nil => exact first.trans second.symm
  | cons seg rest ih =>
    obtain ⟨c, at_c, below⟩ := first
    obtain ⟨d, at_d, below'⟩ := second
    have nodup := (distinct [] k rfl).1
    have same : (seg, c) = (seg, d) :=
      Option.some.inj ((find_of_mem nodup at_c).symm.trans (find_of_mem nodup at_d))
    obtain rfl := congrArg Prod.snd same
    exact ih (distinct.child at_c) below below'

def loadedSections (hive : Hive) : List FileSection :=
  (hiveSections hive.key).map fun e => (loadedPath e.1, e.2)

theorem loadRegFile_hive {rootPrefix : Str} (noBreak : '\n' ∉ rootPrefix)
    (noReturn : '\r' ∉ rootPrefix) (under : splitPath rootPrefix ≠ [])
    (unbroken : ∀ p n, Written hive p n → Unbroken (p, n)) {text : Str}
    (saved : hiveText rootPrefix hive.key = some text) : loadRegFile new text rootPrefix =
      (build new ((loadedSections hive).map (absolute (splitPath rootPrefix))), none) := by
  have some_ : hive.key.children ≠ [] := fun none_ => by
    rw [hiveText, if_pos none_] at saved
    cases saved
  have written : ∀ e ∈ hiveSections hive.key, Written hive e.1 e.2 := fun e mem =>
    (mem_hiveSections _ e.1 e.2).mp mem
  rw [hiveText_sections rootPrefix some_] at saved
  rw [← Option.some.inj saved, loadRegFile_sections noBreak noReturn under
    fun e mem => unbroken e.1 e.2 (written e mem), foldl_loadSection, loadedSections, map_map]
  · rfl
  · exact fun e mem => hive.unlinked e.1 e.2 (written e mem).2.1
  · exact fun path n found => node_new path n found ▸ rfl

theorem at_loaded {rs : List Str} (under : rs ≠ []) (es : List FileSection) (below : p ≠ [])
    (m : RegistryKey) :
    At (rs ++ p) (build new (es.map (absolute rs))) m ↔ At p (build new es) m := by
  by_cases none_ : es = []
  · subst none_
    obtain ⟨s, rest, rfl⟩ := exists_cons_of_ne_nil under
    obtain ⟨t, tail, rfl⟩ := exists_cons_of_ne_nil below
    simp [build, At, new]
  · rw [build_under rs new none_, at_under]

/-- Below its root, the hive is built as if its root had been written too. -/
theorem at_build_hive (below : p ≠ []) (m : RegistryKey) :
    At p (build new (hiveSections hive.key)) m ↔ ∃ n, Written hive p n ∧ m = restored n p := by
  have root : restored hive.key [] = build (restoredValues hive.key) (hiveSections hive.key) := by
    rw [restored, keySections_hive]
    rfl
  have children : (build new (hiveSections hive.key)).children =
      (restored hive.key []).children := by
    have nodup := (hive.distinct [] hive.key rfl).1
    rw [root, hiveSections, build_below nodup rfl, build_below nodup (children_storeAll _ _)]
  have top : skipsKey (pathText []) = false := skipsKey_nil
  have all := at_restored hive.distinct top p m
  obtain ⟨seg, rest, rfl⟩ := exists_cons_of_ne_nil below
  rw [At, children]
  refine all.trans ⟨?_, ?_⟩
  · rintro ⟨n, found, kept, equal⟩
    exact ⟨n, ⟨below, found, kept⟩, equal⟩
  · rintro ⟨n, ⟨-, found, kept⟩, equal⟩
    exact ⟨n, found, kept, equal⟩

theorem values_restored (written : Written hive p n) :
    (restored n p).values = (restoredValues n).values := by
  rw [restored_eq (hive.distinct p n written.2.1).1 (written.2.2 p prefix_rfl)]

theorem loadedSections_eq (clean : ∀ p n, Written hive p n → CleanPath p) :
    loadedSections hive = hiveSections hive.key := by
  conv_rhs => rw [← map_id (hiveSections hive.key)]
  apply map_congr_left
  rintro ⟨p, n⟩ mem
  have written := (mem_hiveSections _ p n).mp mem
  rw [loadedPath_eq (clean p n written) written.1, id]

/-- Of a hive without line breaks, what is loaded is what was saved exactly when each path
fits a header line, and each value is listed as it is spelled and is one its line stands for. -/
theorem roundTrips_iff {rootPrefix : Str} (noBreak : '\n' ∉ rootPrefix)
    (noReturn : '\r' ∉ rootPrefix) (under : splitPath rootPrefix ≠ []) (hive : Hive)
    (unbroken : ∀ p n, Written hive p n → Unbroken (p, n)) :
    RoundTrips rootPrefix hive ↔ ∀ p n, Written hive p n → CleanPath p ∧ ValuesKept n := by
  constructor
  · intro trips p n written
    have some_ : hive.key.children ≠ [] := fun none_ => by
      obtain ⟨seg, rest, rfl⟩ := exists_cons_of_ne_nil written.1
      obtain ⟨c, mem, -⟩ := written.2.1
      rw [none_] at mem
      cases mem
    obtain ⟨-, same⟩ := trips _ (hiveText_sections rootPrefix some_)
    rw [loadRegFile_hive noBreak noReturn under unbroken (hiveText_sections rootPrefix some_)] at same
    have clean : ∀ q m, Written hive q m → CleanPath q := by
      intro q m inside
      obtain ⟨k, found⟩ := (same q inside.1).1.mpr ⟨m, inside⟩
      have headers : ∀ e ∈ loadedSections hive, CleanPath e.1 := by
        intro e mem
        obtain ⟨f, -, rfl⟩ := mem_map.mp mem
        exact cleanPath_loadedPath
      exact cleanTree_build headers cleanTree_new q k ((at_loaded under _ inside.1 k).mp found)
    refine ⟨clean p n written, valuesKept_of_mem (hive.distinct p n written.2.1).2 fun e mem => ?_⟩
    obtain ⟨k, found, inside⟩ := ((same p written.1).2 e).mpr ⟨n, written, mem⟩
    rw [at_loaded under _ written.1, loadedSections_eq clean, at_build_hive written.1] at found
    obtain ⟨m, other, rfl⟩ := found
    obtain rfl := at_unique hive.distinct written.2.1 other.2.1
    rwa [values_restored written] at inside
  · intro kept text saved
    have clean : ∀ q m, Written hive q m → CleanPath q := fun q m inside => (kept q m inside).1
    rw [loadRegFile_hive noBreak noReturn under unbroken saved]
    refine ⟨rfl, fun p below => ?_⟩
    simp only [at_loaded under _ below, loadedSections_eq clean, at_build_hive below]
    constructor
    · constructor
      · rintro ⟨m, n, written, -⟩
        exact ⟨n, written⟩
      · rintro ⟨n, written⟩
        exact ⟨_, n, written, rfl⟩
    · intro e
      have values : ∀ n, Written hive p n → (e ∈ (restored n p).values ↔ e ∈ n.values) := by
        intro n written
        rw [values_restored written]
        exact mem_restoredValues (hive.distinct p n written.2.1).2 (kept p n written).2
      constructor
      · rintro ⟨m, ⟨n, written, rfl⟩, mem⟩
        exact ⟨n, written, (values n written).mp mem⟩
      · rintro ⟨n, written, mem⟩
        exact ⟨_, ⟨n, written, rfl⟩, (values n written).mpr mem⟩

end RoundTrip

def oneKey (n : RegistryKey) : RegistryKey := ⟨[("Software".toList, n)], [], []⟩

theorem everywhere_oneKey {P : RegistryKey → Prop} (bare : n.children = []) (root : P (oneKey n))
    (here : P n) : Everywhere P (oneKey n) := by
  rintro (_ | ⟨s, _ | ⟨t, rest⟩⟩) m found
  · exact found ▸ root
  · obtain ⟨c, mem, rfl⟩ := found
    obtain rfl := congrArg Prod.snd (mem_singleton.mp mem)
    exact here
  · obtain ⟨c, mem, d, below, -⟩ := found
    obtain rfl := congrArg Prod.snd (mem_singleton.mp mem)
    rw [bare] at below
    cases below

def plainKey : RegistryKey :=
  ⟨[], [("Path".toList, ⟨1, strToUtf16leNull "C:\\\"x\"".toList⟩), ("Size".toList, ⟨4, [1, 0, 0, 0]⟩),
    ([], ⟨3, [0xff]⟩)], ["Path".toList, "Size".toList, []]⟩

@[reducible] def oneKeyHive (n : RegistryKey) (bare : n.children = [])
    (distinct : @Distinct asciiCase n) (unlinked : @Unlinked asciiCase n) : @Hive asciiCase :=
  @Hive.mk asciiCase (oneKey n)
    (everywhere_oneKey bare ⟨nodup_singleton _, nodup_nil⟩ distinct) (everywhere_oneKey bare rfl unlinked)

theorem roundTrips_plainKey : @RoundTrips asciiCase "Registry\\Machine".toList
    (oneKeyHive plainKey rfl (by decide) rfl) := by
  have sections : @hiveSections asciiCase (oneKey plainKey) = [(["Software".toList], plainKey)] := rfl
  have only : ∀ p n, @Written asciiCase (oneKeyHive plainKey rfl (by decide) rfl) p n → (p, n) = (["Software".toList], plainKey) := by
    intro p n written
    have mem := (@mem_hiveSections asciiCase _ p n).mpr written
    rwa [sections, mem_singleton] at mem
  refine (@roundTrips_iff asciiCase "Registry\\Machine".toList (by decide) (by decide) (by decide)
    (oneKeyHive plainKey rfl (by decide) rfl) ?_).mpr ?_
  · intro p n written
    rw [only p n written]
    exact @Unbroken.mk asciiCase _ (by decide) (by decide) (by decide)
  · intro p n written
    obtain ⟨rfl, rfl⟩ := Prod.mk.inj (only p n written)
    exact ⟨⟨⟨by decide, by decide, by decide⟩, by decide, trivial⟩, by decide⟩

def twoLineKey : RegistryKey :=
  ⟨[], [("Note".toList, ⟨1, strToUtf16leNull "a\nb".toList⟩)], ["Note".toList]⟩

def twoLineFile : Str :=
  ("WINE REGISTRY Version 2\n;; All keys relative to REGISTRY\\\\Machine\n\n#arch=win64\n\n" ++
    "[Software] 1773790329\n\"Note\"=\"a\nb\"\n\n").toList

set_option maxRecDepth 8000 in
/-- The line is cut in the string, and what is left of the value is empty. -/
theorem twoLineKey_lost : ¬ @RoundTrips asciiCase "Registry\\Machine".toList
    (oneKeyHive twoLineKey rfl (by decide) rfl) := by
  have saved : @hiveText asciiCase "Registry\\Machine".toList (oneKey twoLineKey) =
      some twoLineFile := by decide +kernel
  have loaded : (@loadRegFile asciiCase new twoLineFile "Registry\\Machine".toList).1 =
      ⟨[("Registry".toList, ⟨[("Machine".toList,
        oneKey ⟨[], [("Note".toList, ⟨1, [0, 0]⟩)], ["Note".toList]⟩)], [], []⟩)], [], []⟩ := rfl
  have written := (@mem_hiveSections asciiCase (oneKey twoLineKey) ["Software".toList] twoLineKey).mp
    (mem_singleton_self _)
  have path : splitPath "Registry\\Machine".toList ++ ["Software".toList] =
      ["Registry".toList, "Machine".toList, "Software".toList] := by decide
  intro trips
  obtain ⟨m, found, mem⟩ := (((trips twoLineFile saved).2 ["Software".toList] written.1).2
    ("Note".toList, ⟨1, strToUtf16leNull "a\nb".toList⟩)).mpr
    ⟨twoLineKey, written, mem_singleton_self _⟩
  rw [loaded, path] at found
  obtain ⟨machine, first, hive, second, key, third, rfl⟩ := found
  obtain rfl := congrArg Prod.snd (mem_singleton.mp first)
  obtain rfl := congrArg Prod.snd (mem_singleton.mp second)
  obtain rfl := congrArg Prod.snd (mem_singleton.mp third)
  exact absurd (mem_singleton.mp mem) (by decide)

end Triskelion.RegistryRoundTrip
