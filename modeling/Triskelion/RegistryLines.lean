import Triskelion.RegistryText

/-! What `load_reg_file` makes of the lines that `write_key` writes. -/

namespace Triskelion.RegistryLines
open KeyedTable RegistryKey RegistryWalk RegistryText TextScan Utf16Text List Option

def escapeChar (c : Char) : Str :=
  if c = '\\' then ['\\', '\\'] else if c = '"' then ['\\', '"'] else [c]

theorem escapeText_nil : escapeText [] = [] := rfl

variable {s : Str}

theorem escapeText_cons (c : Char) : escapeText (c :: s) = escapeChar c ++ escapeText s := by
  by_cases slash : c = '\\'
  · subst slash
    rfl
  · by_cases quote : c = '"'
    · subst quote
      rfl
    · simp [escapeText, escapeChar, replaceChar, slash, quote]

theorem escapeText_append (t : Str) : escapeText (s ++ t) = escapeText s ++ escapeText t := by
  induction s with
  | nil => rfl
  | cons c s ih => rw [cons_append, escapeText_cons, escapeText_cons, ih, append_assoc]

variable {c : Char} {text line name : Str} {v : RegistryValue}

theorem mem_escapeText (mem : c ∈ escapeText s) : c ∈ s ∨ c = '\\' := by
  induction s with
  | nil => cases mem
  | cons d s ih =>
    rw [escapeText_cons, mem_append] at mem
    rcases mem with head | tail
    · rw [escapeChar] at head
      split at head
      · right; simpa using head
      · split at head
        · next quote => simp only [mem_cons, not_mem_nil, or_false] at head ⊢; grind
        · left; simp at head; simp [head]
    · rcases ih tail with inside | slash
      · exact .inl (mem_cons_of_mem _ inside)
      · exact .inr slash

theorem parseQuotedName_escape (rest : Str) :
    parseQuotedName (escapeText name ++ '"' :: rest) = some (name, rest) := by
  induction name with
  | nil => simp [escapeText_nil, parseQuotedName]
  | cons c name ih =>
    rw [escapeText_cons, append_assoc, escapeChar]
    split
    · next slash =>
      subst slash
      simp [parseQuotedName, ih]
    · next slash =>
      split
      · next quote =>
        subst quote
        simp [parseQuotedName, ih]
      · next quote =>
        rw [singleton_append, parseQuotedName, ih]
        · rfl
        · exact slash
        · exact quote

theorem unescapeRegString_append (s rest : Str) :
    unescapeRegString (escapeText s ++ rest) = s ++ unescapeRegString rest := by
  induction s with
  | nil => rfl
  | cons c s ih =>
    rw [escapeText_cons, escapeChar]
    split
    · next slash =>
      subst slash
      simp [unescapeRegString, ih]
    · next slash =>
      split
      · next quote =>
        subst quote
        simp [unescapeRegString, ih]
      · rw [singleton_append, cons_append, unescapeRegString, ih, cons_append]
        exact slash

theorem unescapeRegString_escape (s : Str) : unescapeRegString (escapeText s) = s := by
  have whole := unescapeRegString_append s []
  rwa [append_nil, unescapeRegString, append_nil] at whole

def loadedName (name : Str) : Str := if name = ['@'] then [] else name

theorem splitValueLine_nameText (rest : Str) :
    splitValueLine (nameText name ++ '=' :: rest) = some (loadedName name, rest) := by
  rw [nameText, loadedName]
  split
  · next short =>
    rcases short with rfl | rfl <;> rfl
  · next long =>
    rw [not_or] at long
    rw [if_neg long.2]
    show (parseQuotedName ((escapeText name ++ ['"']) ++ '=' :: rest)).bind afterEquals = _
    rw [append_assoc, singleton_append, parseQuotedName_escape]
    rfl

def quoted (s : Str) : Str := '"' :: escapeText s ++ ['"']

def loadedValue (v : RegistryValue) : RegistryValue :=
  if v.dataType = 1 then ⟨1, strToUtf16leNull (trimmedText v.data)⟩
  -- all quotes at the end are taken for the closing one
  else if v.dataType = 2 then
    ⟨2, strToUtf16leNull (unescapeRegString (trimQuotes (quoted (trimmedText v.data))))⟩
  else if v.dataType = 4 then ⟨4, v.data.take 4⟩
  else v

theorem loadedValue_dataType : (loadedValue v).dataType = v.dataType := by
  rw [loadedValue]
  split
  · next plain => exact plain.symm
  · split
    · next expand => exact expand.symm
    · split
      · next dword => exact dword.symm
      · rfl

def OneLine (v : RegistryValue) : Prop :=
  v.dataType = 1 ∨ v.dataType = 2 → '\n' ∉ trimmedText v.data

instance (v : RegistryValue) : Decidable (OneLine v) :=
  inferInstanceAs (Decidable (v.dataType = 1 ∨ v.dataType = 2 → '\n' ∉ trimmedText v.data))

theorem u32LeBytes_le (a b c d : UInt8) :
    u32LeBytes (a.toNat + 256 * b.toNat + 65536 * c.toNat + 16777216 * d.toNat) = [a, b, c, d] := by
  have ha := a.toNat_lt
  have hb := b.toNat_lt
  have hc := c.toNat_lt
  have hd := d.toNat_lt
  generalize sum : a.toNat + 256 * b.toNat + 65536 * c.toNat + 16777216 * d.toNat = n
  have first : n % 256 = a.toNat := by omega
  have second : n / 256 % 256 = b.toNat := by omega
  have third : n / 65536 % 256 = c.toNat := by omega
  have fourth : n / 16777216 % 256 = d.toNat := by omega
  simp [u32LeBytes, first, second, third, fourth]

theorem isWhitespace_of_hexValue (digit : (hexValue c).isSome) : isWhitespace c = false := by
  have range : 0x30 ≤ c.toNat ∧ c.toNat ≤ 0x66 := by
    rw [hexValue] at digit
    split at digit
    · omega
    · split at digit
      · omega
      · split at digit
        · omega
        · cases digit
  simp only [isWhitespace, contains_eq_mem, mem_cons, not_mem_nil, or_false,
    Bool.or_eq_false_iff, Bool.and_eq_false_iff, decide_eq_false_iff_not]
  omega

theorem trim_formatHex (width n : Nat) : trim (formatHex width n) = formatHex width n := by
  have plain : ∀ c ∈ formatHex width n, isWhitespace c = false := fun c mem =>
    isWhitespace_of_hexValue (mem_formatHex mem)
  generalize formatHex width n = s at plain
  have start : s.dropWhile isWhitespace = s := by
    cases s with
    | nil => rfl
    | cons c s => rw [dropWhile_cons_of_neg (by simp [plain c mem_cons_self])]
  rw [trim, start, rdropWhile_eq_self_iff]
  intro nonempty
  simp [plain _ (getLast_mem nonempty)]

variable {data : List UInt8}

theorem parseHexBytes_hexText : parseHexBytes (hexText data) = data := by
  cases data with
  | nil => rfl
  | cons b rest =>
    have plain : ∀ l ∈ (b :: rest).map (fun b => formatHex 2 b.toNat), ',' ∉ l := by
      intro l mem comma
      obtain ⟨c, -, rfl⟩ := mem_map.mp mem
      have digit := mem_formatHex comma
      simp [hexValue] at digit
    rw [parseHexBytes, hexText, splitOn_intercalate ',' plain (by simp)]
    induction b :: rest with
    | nil => rfl
    | cons c rest ih =>
      have parsed : fromStrRadix16 256 (trim (formatHex 2 c.toNat)) = some c.toNat := by
        rw [trim_formatHex, fromStrRadix16_formatHex c.toNat_lt]
      rw [map_cons, filterMap_cons_some (b := c) (by rw [parsed]; simp), ih]

theorem parseData_valueText (written : valueText v = some text) :
    parseData text = .ok (some (loadedValue v)) := by
  rw [valueText] at written
  rw [loadedValue]
  split at written
  · next plain =>
    rw [if_pos plain, ← Option.some.inj written]
    show (quotedSlice (escapeText (trimmedText v.data) ++ ['"'])).map _ = _
    rw [quotedSlice, getLast?_concat, dropLast_concat]
    dsimp only
    rw [if_pos (by decide), Except.map, unescapeRegString_escape]
  · next plain =>
    rw [if_neg plain]
    split at written
    · next expand =>
      rw [if_pos expand, ← some.inj written]
      rfl
    · next expand =>
      rw [if_neg expand]
      split at written
      · next dword =>
        rw [if_pos dword]
        split at written
        · next a b c d rest equal =>
          have bound : a.toNat + 256 * b.toNat + 65536 * c.toNat + 16777216 * d.toNat <
              0x100000000 := by
            have ha := a.toNat_lt
            have hb := b.toNat_lt
            have hc := c.toNat_lt
            have hd := d.toNat_lt
            omega
          rw [← some.inj written, equal]
          show Except.ok (some (RegistryValue.mk 4 (u32LeBytes
            ((fromStrRadix16 _ (trim (formatHex 8 _))).getD 0)))) = _
          rw [trim_formatHex, fromStrRadix16_formatHex bound]
          simp only [getD_some, u32LeBytes_le]
          rfl
        · cases written
      · next dword =>
        have noClose : ')' ∉ formatHex 0 v.dataType.toNat := fun mem => by
          have digit := mem_formatHex mem
          simp [hexValue] at digit
        rw [if_neg dword, ← some.inj written, append_assoc, append_assoc]
        show Except.ok ((splitAtPair ')' ':' (_ ++ ')' :: ':' :: hexText v.data)).map _) = _
        rw [splitAtPair_of_not_mem noClose]
        simp only [map_some, fromStrRadix16_formatHex v.dataType.toNat_lt,
          getD_some, parseHexBytes_hexText, UInt32.ofNat_toNat]

/-- A line that is not changed by trimming, not skipped, and not continued. -/
structure PlainLine (line : Str) : Prop where
  noBreak : '\n' ∉ line
  shape : ∃ first middle last, line = first :: middle ++ [last] ∧ isWhitespace first = false ∧
    first ∉ [';', '#', 'W'] ∧ isWhitespace last = false ∧ last ≠ '\\'

section
variable (plain : PlainLine line)
include plain

theorem PlainLine.trim_eq : trim line = line := by
  obtain ⟨first, middle, last, rfl, before, -, after, -⟩ := plain.shape
  exact TextScan.trim_eq middle before after

theorem PlainLine.not_skipped : isSkippedLine line = false := by
  obtain ⟨first, middle, last, rfl, -, head, -, -⟩ := plain.shape
  simp only [mem_cons, not_mem_nil, or_false, not_or] at head
  simp [isSkippedLine, head, List.isPrefixOf, Ne.symm head.2.2]

theorem PlainLine.not_continued : endsWithBackslash line = false := by
  obtain ⟨first, middle, last, rfl, -, -, -, slash⟩ := plain.shape
  rw [endsWithBackslash, getLast?_concat]
  simpa using slash

theorem PlainLine.not_return : line.getLast? ≠ some '\r' := by
  obtain ⟨first, middle, last, rfl, -, -, after, -⟩ := plain.shape
  rw [getLast?_concat]
  intro equal
  rw [some.inj equal] at after
  cases after

end

theorem mem_hexText (mem : c ∈ hexText data) : (hexValue c).isSome ∨ c = ',' := by
  rw [hexText] at mem
  induction data with
  | nil => cases mem
  | cons b rest ih =>
    cases rest with
    | nil =>
      left
      exact mem_formatHex (by simpa [List.intercalate] using mem)
    | cons d rest =>
      rw [map_cons, map_cons, intercalate_cons_cons, append_assoc, mem_append, mem_append] at mem
      rcases mem with digit | comma | later
      · exact .inl (mem_formatHex digit)
      · exact .inr (mem_singleton.mp comma)
      · exact ih later

theorem plain_of_digit_or_comma (h : (hexValue c).isSome ∨ c = ',') :
    isWhitespace c = false ∧ c ≠ '\\' ∧ c ≠ '\n' := by
  rcases h with digit | rfl
  · refine ⟨isWhitespace_of_hexValue digit, ?_, ?_⟩ <;> rintro rfl <;> cases digit
  · decide

theorem append_ends (front : Str) {digits : Str} (nonempty : digits ≠ [])
    (plain : ∀ c ∈ digits, (hexValue c).isSome ∨ c = ',') :
    ∃ before last, front ++ digits = before ++ [last] ∧ isWhitespace last = false ∧
      last ≠ '\\' := by
  have last := plain_of_digit_or_comma (plain _ (getLast_mem nonempty))
  refine ⟨front ++ digits.dropLast, digits.getLast nonempty, ?_, last.1, last.2.1⟩
  rw [append_assoc, dropLast_append_getLast nonempty]

theorem valueText_ends (written : valueText v = some text) :
    ∃ before last, text = before ++ [last] ∧ isWhitespace last = false ∧ last ≠ '\\' := by
  rw [valueText] at written
  split at written
  · exact ⟨_, '"', (Option.some.inj written).symm, rfl, by decide⟩
  · split at written
    · exact ⟨_, '"', (some.inj written).symm, rfl, by decide⟩
    · split at written
      · split at written
        · rw [← some.inj written]
          exact append_ends _ formatHex_ne_nil fun c mem => .inl (mem_formatHex mem)
        · cases written
      · rw [← some.inj written]
        by_cases nothing : hexText v.data = []
        · rw [nothing]
          refine ⟨"hex(".toList ++ formatHex 0 v.dataType.toNat ++ [')'], ':', ?_, rfl, by decide⟩
          simp
        · exact append_ends _ nothing fun c mem => mem_hexText mem

theorem noBreak_escapeText (plain : '\n' ∉ s) : '\n' ∉ escapeText s := by
  intro mem
  rcases mem_escapeText mem with inside | slash
  · exact plain inside
  · exact absurd slash (by decide)

theorem noBreak_formatHex (width n : Nat) : '\n' ∉ formatHex width n := fun mem =>
  (plain_of_digit_or_comma (.inl (mem_formatHex mem))).2.2 rfl

theorem noBreak_valueText (unbroken : OneLine v) (written : valueText v = some text) :
    '\n' ∉ text := by
  rw [valueText] at written
  split at written
  · next plain =>
    have inner := noBreak_escapeText (unbroken (.inl plain))
    rw [← some.inj written]
    simpa using inner
  · split at written
    · next expand =>
      have inner := noBreak_escapeText (unbroken (.inr expand))
      rw [← some.inj written]
      simpa using inner
    · split at written
      · split at written
        · rw [← some.inj written]
          simpa using noBreak_formatHex 8 _
        · cases written
      · have inner : '\n' ∉ hexText v.data := fun mem =>
          (plain_of_digit_or_comma (mem_hexText mem)).2.2 rfl
        rw [← some.inj written]
        simpa using ⟨noBreak_formatHex 0 _, inner⟩

theorem nameText_cons (name : Str) :
    ∃ first rest, nameText name = first :: rest ∧ (first = '"' ∨ first = '@') := by
  rw [nameText]
  split
  · exact ⟨'@', [], rfl, .inr rfl⟩
  · exact ⟨'"', _, rfl, .inl rfl⟩

theorem plainLine_value (plain : '\n' ∉ name) (unbroken : OneLine v)
    (written : valueText v = some text) : PlainLine (nameText name ++ '=' :: text) := by
  have nameBreak : '\n' ∉ nameText name := by
    rw [nameText]
    split
    · decide
    · simpa using noBreak_escapeText plain
  have textBreak := noBreak_valueText unbroken written
  refine ⟨by simpa using ⟨nameBreak, textBreak⟩, ?_⟩
  obtain ⟨first, rest, starts, sign⟩ := nameText_cons name
  obtain ⟨before, last, ends, after, slash⟩ := valueText_ends written
  refine ⟨first, rest ++ '=' :: before, last, by simp [starts, ends], ?_, ?_, after, slash⟩
  · rcases sign with rfl | rfl <;> rfl
  · rcases sign with rfl | rfl <;> decide

theorem value_head (rest : Str) : (nameText name ++ rest).head? ≠ some '[' := by
  obtain ⟨first, tail, starts, sign⟩ := nameText_cons name
  rw [starts]
  rcases sign with rfl | rfl <;> simp

def pathText (path : List Str) : Str := path.foldl childPath []

def loadedPath (path : List Str) : List Str := headerSegments (headerLine (pathText path))

theorem plainLine_header {path : Str} (unbroken : '\n' ∉ path) : PlainLine (headerLine path) := by
  refine ⟨?_, '[', path ++ "] 177379032".toList, '9', by simp [headerLine], rfl, by decide, rfl,
    by decide⟩
  rw [headerLine, mem_append, mem_cons, not_or, not_or]
  exact ⟨⟨by decide, unbroken⟩, by decide⟩

theorem mem_replaceFirst {pattern new : Str} (mem : c ∈ replaceFirst pattern new s) :
    c ∈ s ∨ c ∈ new := by
  induction s with
  | nil => cases mem
  | cons d rest ih =>
    rw [replaceFirst] at mem
    split at mem
    · next after found =>
      rcases mem_append.mp mem with inside | inside
      · exact .inr inside
      · exact .inl (mem_of_stripStart found inside)
    · rcases mem_cons.mp mem with rfl | inside
      · exact .inl mem_cons_self
      · rcases ih inside with inside | inside
        · exact .inl (mem_cons_of_mem _ inside)
        · exact .inr inside

def rootLine (rootPrefix : Str) : Str :=
  ";; All keys relative to ".toList ++
    replaceFirst "Registry\\".toList "REGISTRY\\\\".toList rootPrefix

theorem fileHeader_whole {rootPrefix : Str} (noBreak : '\n' ∉ rootPrefix)
    (noReturn : '\r' ∉ rootPrefix) (mem : line ∈ fileHeader rootPrefix) :
    '\n' ∉ line ∧ line.getLast? ≠ some '\r' := by
  have absent : ∀ d, d ∉ rootPrefix → d ∉ ";; All keys relative to ".toList →
      d ∉ "REGISTRY\\\\".toList → d ∉ rootLine rootPrefix := by
    intro d old start new inside
    rcases mem_append.mp inside with inside | inside
    · exact start inside
    · exact (mem_replaceFirst inside).elim old new
  have fixed : ∀ line ∈ ["WINE REGISTRY Version 2".toList, [], "#arch=win64".toList],
      '\n' ∉ line ∧ line.getLast? ≠ some '\r' := by decide
  by_cases second : line = rootLine rootPrefix
  · subst second
    exact ⟨absent _ noBreak (by decide) (by decide), fun last =>
      absent _ noReturn (by decide) (by decide) (mem_of_getLast? last)⟩
  · apply fixed
    simp only [fileHeader, mem_cons, not_mem_nil, or_false] at mem ⊢
    tauto

section Loading
variable [CaseMap]

/-- A key to be written, and its path below the root of the file. -/
abbrev FileSection := List Str × RegistryKey

/-- No text of the section has a line break. -/
structure Unbroken (e : FileSection) : Prop where
  path : '\n' ∉ pathText e.1
  names : ∀ v ∈ listedValues e.2, '\n' ∉ v.1
  strings : ∀ v ∈ listedValues e.2, OneLine v.2

def sectionLines (e : FileSection) : List Str := keyLines (pathText e.1) e.2

section
variable (values : List (Str × RegistryValue))

def loadedValues : List (Str × RegistryValue) :=
  values.filterMap fun e => (valueText e.2).map fun _ => (loadedName e.1, loadedValue e.2)

def storeAll (n : RegistryKey) : RegistryKey :=
  values.foldl (fun n e => n.setValue e.1 e.2) n

end

theorem storeAll_induction {P : RegistryKey → Prop} {values : List (Str × RegistryValue)}
    (keep : ∀ e ∈ values, ∀ n, P n → P (n.setValue e.1 e.2)) {n : RegistryKey} (start : P n) :
    P (storeAll values n) :=
  foldlRecOn values _ start fun n here e mem => keep e mem n here

def loadSection (rootSegments : List Str) (root : RegistryKey) (e : FileSection) : RegistryKey :=
  walkMutCreate (followSymlink root (rootSegments ++ loadedPath e.1))
    (storeAll (loadedValues (listedValues e.2))) root

variable {path rs : List Str}

theorem substituteLink_ne_nil {k : RegistryKey} {resolved : List Str}
    (found : substituteLink k path = some resolved) : resolved ≠ [] := by
  induction path generalizing k with
  | nil => cases found
  | cons seg rest ih =>
    rw [substituteLink] at found
    split at found
    · cases found
    · split at found
      · rw [← some.inj found]
        exact cons_ne_nil _ _
      · exact ih found

variable {root : RegistryKey}

theorem followSymlink_ne_nil (nonempty : path ≠ []) : followSymlink root path ≠ [] := by
  rw [followSymlink]
  generalize 8 = rounds
  induction rounds generalizing path with
  | zero => exact nonempty
  | succ rounds ih =>
    rw [followRounds]
    split
    · exact nonempty
    · next resolved found => exact ih (substituteLink_ne_nil found)

theorem loadLines_append {st mid : LoadState} {front : List Str}
    (loaded : loadLines rs st front = (mid, none)) (rest : List Str) :
    loadLines rs st (front ++ rest) = loadLines rs mid rest := by
  induction front generalizing st with
  | nil => rw [(Prod.mk.inj loaded).1]; rfl
  | cons line front ih =>
    rw [loadLines] at loaded
    rw [cons_append, loadLines]
    split at loaded
    · exact ih loaded
    · cases loaded

theorem loadLine_header (unbroken : '\n' ∉ text) : loadLine rs ⟨root, path, []⟩ (headerLine text) =
      .ok (loadHeader rs ⟨root, path, []⟩ (headerLine text)) := by
  have plain := plainLine_header unbroken
  have bracket : ']' ∈ headerLine text := by simp [headerLine]
  rw [loadLine, plain.trim_eq]
  simp only [ne_eq, not_true_eq_false, if_false, plain.not_skipped, Bool.false_eq_true]
  have opens : (headerLine text).head? = some '[' := rfl
  rw [if_pos opens, if_pos bracket]

theorem loadLine_value (rs : List Str) (root : RegistryKey) (nonempty : path ≠ [])
    (unbroken : '\n' ∉ name) (oneLine : OneLine v) (written : valueText v = some text) :
    loadLine rs ⟨root, path, []⟩ (nameText name ++ '=' :: text) =
      .ok ⟨walkMutCreate path (.setValue (loadedName name) (loadedValue v)) root, path, []⟩ := by
  have plain := plainLine_value unbroken oneLine written
  rw [loadLine, plain.trim_eq]
  simp only [ne_eq, not_true_eq_false, if_false, plain.not_skipped, Bool.false_eq_true,
    value_head, plain.not_continued]
  rw [parseRegValue, if_neg nonempty, splitValueLine_nameText]
  simp only [parseData_valueText written]
  rfl

theorem walkMutCreate_comp (f g : RegistryKey → RegistryKey) (k : RegistryKey) :
    walkMutCreate path g (walkMutCreate path f k) = walkMutCreate path (fun n => g (f n)) k := by
  induction path generalizing k with
  | nil => rfl
  | cons seg rest ih => simp only [walkMutCreate, upsert_upsert rfl, getD_some, ih]

theorem loadLines_values (nonempty : path ≠ [])
    (f : RegistryKey → RegistryKey) {values : List (Str × RegistryValue)}
    (names : ∀ v ∈ values, '\n' ∉ v.1) (strings : ∀ v ∈ values, OneLine v.2) :
    loadLines rs ⟨walkMutCreate path f root, path, []⟩
      (values.filterMap fun e => (valueText e.2).map fun text => nameText e.1 ++ '=' :: text) =
      (⟨walkMutCreate path (fun n => storeAll (loadedValues values) (f n)) root, path, []⟩, none) := by
  induction values generalizing f with
  | nil => rfl
  | cons e rest ih =>
    have later := fun g => ih g (fun v mem => names v (mem_cons_of_mem _ mem))
      (fun v mem => strings v (mem_cons_of_mem _ mem))
    cases written : valueText e.2 with
    | none =>
      rw [filterMap_cons_none (by rw [written]; rfl), later, loadedValues, loadedValues,
        filterMap_cons_none (by rw [written]; rfl)]
    | some =>
      rw [filterMap_cons_some (by rw [written]; rfl), loadLines,
        loadLine_value rs _ nonempty (names e mem_cons_self) (strings e mem_cons_self)
          written, walkMutCreate_comp]
      show loadLines rs _ _ = _
      rw [later, loadedValues, loadedValues, filterMap_cons_some (by rw [written]; rfl)]
      rfl

variable {e : FileSection}

theorem loadLines_section (under : rs ≠ []) (root : RegistryKey) (path : List Str)
    (unbroken : Unbroken e) : loadLines rs ⟨root, path, []⟩ (sectionLines e) =
      (⟨loadSection rs root e, followSymlink root (rs ++ loadedPath e.1), []⟩, none) := by
  have nonempty : followSymlink root (rs ++ loadedPath e.1) ≠ [] :=
    followSymlink_ne_nil (by simp [under])
  rw [sectionLines, keyLines, cons_append, loadLines, loadLine_header unbroken.path]
  show loadLines rs ⟨walkMutCreate (followSymlink root (rs ++ loadedPath e.1)) id root,
    followSymlink root (rs ++ loadedPath e.1), []⟩ (valueLines e.2 ++ [[]]) = _
  rw [valueLines, loadLines_append (loadLines_values nonempty id unbroken.names unbroken.strings)]
  rfl

variable {es : List FileSection}

theorem loadLines_sections (under : rs ≠ []) (root : RegistryKey) (path : List Str)
    (unbroken : ∀ e ∈ es, Unbroken e) :
    ∃ last, loadLines rs ⟨root, path, []⟩ (es.flatMap sectionLines) =
      (⟨es.foldl (loadSection rs) root, last, []⟩, none) := by
  induction es generalizing root path with
  | nil => exact ⟨path, rfl⟩
  | cons e rest ih =>
    obtain ⟨last, loaded⟩ := ih (loadSection rs root e) (followSymlink root (rs ++ loadedPath e.1))
      fun e mem => unbroken e (mem_cons_of_mem _ mem)
    refine ⟨last, ?_⟩
    rw [flatMap_cons,
      loadLines_append (loadLines_section under root path (unbroken e mem_cons_self)), loaded]
    rfl

theorem sectionLines_whole (unbroken : Unbroken e) (mem : line ∈ sectionLines e) :
    '\n' ∉ line ∧ line.getLast? ≠ some '\r' := by
  rw [sectionLines, keyLines, mem_append, mem_cons, mem_singleton] at mem
  rcases mem with (rfl | value) | rfl
  · have plain := plainLine_header unbroken.path
    exact ⟨plain.noBreak, plain.not_return⟩
  · obtain ⟨v, listed, written⟩ := mem_filterMap.mp value
    obtain ⟨text, right, rfl⟩ := map_eq_some_iff.mp written
    have plain := plainLine_value (unbroken.names v listed) (unbroken.strings v listed) right
    exact ⟨plain.noBreak, plain.not_return⟩
  · simp

theorem loadLine_rootLine (st : LoadState) (fresh : st.continuation = [])
    (rootPrefix : Str) : loadLine rs st (rootLine rootPrefix) = .ok st := by
  have comment : (trim (rootLine rootPrefix)).head? = some ';' := head?_trim rfl
  rw [loadLine]
  simp [fresh, isSkippedLine, comment]

/-- A file is loaded section by section. -/
theorem loadRegFile_sections {rootPrefix : Str} (noBreak : '\n' ∉ rootPrefix)
    (noReturn : '\r' ∉ rootPrefix) (under : splitPath rootPrefix ≠ [])
    (unbroken : ∀ e ∈ es, Unbroken e) :
    loadRegFile root (unlines (fileHeader rootPrefix ++ es.flatMap sectionLines)) rootPrefix =
      (es.foldl (loadSection (splitPath rootPrefix)) root, none) := by
  have whole : ∀ line ∈ fileHeader rootPrefix ++ es.flatMap sectionLines,
      '\n' ∉ line ∧ line.getLast? ≠ some '\r' := by
    intro line mem
    rcases mem_append.mp mem with first | later
    · exact fileHeader_whole noBreak noReturn first
    · obtain ⟨e, inside, mem⟩ := mem_flatMap.mp later
      exact sectionLines_whole (unbroken e inside) mem
  have skipped : loadLines (splitPath rootPrefix) ⟨root, [], []⟩ (fileHeader rootPrefix) =
      (⟨root, [], []⟩, none) := by
    show loadLines _ _ ["WINE REGISTRY Version 2".toList, rootLine rootPrefix, [],
      "#arch=win64".toList, []] = _
    rw [loadLines]
    show loadLines _ ⟨root, [], []⟩ _ = _
    rw [loadLines, loadLine_rootLine _ rfl]
    rfl
  obtain ⟨last, loaded⟩ := loadLines_sections under root [] unbroken
  rw [loadRegFile, unlines, lines_unlines whole, loadLines_append skipped, loaded]

end Loading
end Triskelion.RegistryLines
