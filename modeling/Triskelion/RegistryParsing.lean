import Triskelion.RegistryText

/-! Which files `load_reg_file` reads as it should. A quoted value is sliced from its second byte
to the last one, without a look at what stands there, so that the slice may run backwards or split
a character; and data that begins as it should is read somehow, whatever follows. The lines of a
file are compared with a grammar of their own. -/

namespace Triskelion.RegistryText

open RegistryKey RegistryWalk TextScan List

/-! ### The lines of a registry file -/

/-- Text up to its closing quote, and what follows. -/
inductive Quoted : Str → Str → Prop
  | close (rest : Str) : Quoted ('"' :: rest) rest
  | plain {c : Char} {s rest : Str} (quote : c ≠ '"') (escape : c ≠ '\\') (later : Quoted s rest) :
      Quoted (c :: s) rest
  | escape (c : Char) {s rest : Str} (later : Quoted s rest) : Quoted ('\\' :: c :: s) rest

def HexNumber (width : Nat) (s : Str) : Prop :=
  s ≠ [] ∧ s.length ≤ width ∧ ∀ c ∈ s, c ∈ "0123456789abcdefABCDEF".toList

def HexBytes (s : Str) : Prop := s = [] ∨ ∀ b ∈ s.splitOn ',', HexNumber 2 (trim b)

inductive Data : Str → Prop
  | text {s : Str} (quoted : Quoted s []) : Data ('"' :: s)
  | dword {s : Str} (number : HexNumber 8 s) : Data ("dword:".toList ++ s)
  | hex {s : Str} (bytes : HexBytes s) : Data ("hex:".toList ++ s)
  | expand {s : Str} (quoted : Quoted s []) : Data ("str(2):\"".toList ++ s)
  | link {s : Str} (quoted : Quoted s []) : Data ("str(6):\"".toList ++ s)
  | typed {t s : Str} (number : HexNumber 8 t) (bytes : HexBytes s) :
      Data ("hex(".toList ++ t ++ "):".toList ++ s)

/-- The line gives data to the value without a name or to one with a quoted name. -/
def Named (line data : Str) : Prop :=
  line = '@' :: '=' :: data ∨ ∃ s, line = '"' :: s ∧ Quoted s ('=' :: data)

def Header (line : Str) : Prop :=
  ∃ path after, line = '[' :: path ++ ']' :: after ∧ ']' ∉ path ∧
    ∀ c ∈ after, isWhitespace c ∨ c.isDigit

/-- How data begins. -/
def Marked (data : Str) : Prop :=
  data.head? = some '"' ∨ "dword:".toList <+: data ∨ "hex:".toList <+: data ∨
    "str(2):".toList <+: data ∨ "str(6):".toList <+: data ∨
    ∃ t, data = "hex(".toList ++ t ∧ [')', ':'] <:+: t

section
variable (st : LoadState) (line : Str)

/-- A value line with those that it continues, when it is complete. -/
def valueLine : Option Str :=
  let trimmed := trim line
  if st.continuation ≠ [] then
    if endsWithBackslash trimmed then none else some (st.continuation ++ trimmed)
  else if isSkippedLine trimmed ∨ trimmed.head? = some '[' ∨ endsWithBackslash trimmed then none
  else some trimmed

def WellFormed : Prop :=
  (∃ l d, valueLine st line = some l ∧ Named l d ∧ Data d) ∨
    st.continuation = [] ∧ Header (trim line)

/-- The line begins like one with a value, below a key, or like the header of a key. -/
def Begins (segments : List Str) : Prop :=
  st.currentPath ≠ [] ∧ (∃ l d, valueLine st line = some l ∧ Named l d ∧ Marked d) ∨
    st.continuation = [] ∧ (trim line).head? = some '[' ∧ ']' ∈ trim line ∧
      segments ++ headerSegments (trim line) ≠ []

end

/-! ### What the parser takes for a value -/

theorem quoted_iff {s rest : Str} : Quoted s rest ↔ ∃ name, parseQuotedName s = some (name, rest) := by
  constructor
  · intro quoted
    induction quoted with
    | close rest => exact ⟨[], by simp [parseQuotedName]⟩
    | plain quote escape _ ih =>
      obtain ⟨name, read⟩ := ih
      exact ⟨_, by simp only [parseQuotedName, read]; rfl⟩
    | escape c _ ih =>
      obtain ⟨name, read⟩ := ih
      exact ⟨_, by simp only [parseQuotedName, read]; rfl⟩
  · rintro ⟨name, read⟩
    fun_induction parseQuotedName s generalizing name with
    | case1 => cases read
    | case2 => cases read
    | case3 esc later ih =>
      obtain ⟨found, inner, same⟩ := Option.map_eq_some_iff.mp read
      cases same
      exact .escape esc (ih found.1 inner)
    | case4 later =>
      cases read
      exact .close _
    | case5 c later quote escape ih =>
      obtain ⟨found, inner, same⟩ := Option.map_eq_some_iff.mp read
      cases same
      exact .plain escape quote (ih found.1 inner)

theorem named_iff {l d : Str} : Named l d ↔ ∃ name, splitValueLine l = some (name, d) := by
  unfold splitValueLine
  split
  · simp [Named]
  · next s =>
    simp only [Named, quoted_iff, Option.bind_eq_some_iff]
    constructor
    · rintro (impossible | ⟨s, same, name, read⟩)
      · cases impossible
      · cases same
        exact ⟨name, (name, '=' :: d), read, rfl⟩
    · rintro ⟨name, ⟨inner, after⟩, read, equals⟩
      unfold afterEquals at equals
      split at equals
      · next same =>
        cases same
        cases equals
        exact .inr ⟨s, rfl, name, read⟩
      · cases equals
  · next default named =>
    simp only [Named, reduceCtorEq, exists_false, iff_false, not_or, not_exists, not_and]
    exact ⟨fun same => default d same, fun s same => absurd same (named s)⟩

theorem stripStart_eq_some {p s r : Str} : stripStart p s = some r ↔ p ++ r = s := by
  fun_induction stripStart p s with
  | case1 => simp [eq_comm]
  | case2 => simp
  | case3 ps c s ih => simp [ih]
  | case4 p ps c s other => simp [other]

theorem isSome_stripStart {p s : Str} : (stripStart p s).isSome ↔ p <+: s := by
  simp only [Option.isSome_iff_exists, stripStart_eq_some]
  rfl

theorem isSome_splitAtPair {a b : Char} {s : Str} : (splitAtPair a b s).isSome ↔ [a, b] <:+: s := by
  fun_induction splitAtPair a b s with
  | case1 x y rest here =>
    obtain ⟨rfl, rfl⟩ := here
    simp [infix_cons_iff]
  | case2 x y rest other ih => simp [infix_cons_iff, ih, eq_comm (a := a), eq_comm (a := b), other]
  | case3 s short =>
    refine iff_of_false nofun fun inside => ?_
    rcases s with - | ⟨x, - | ⟨y, rest⟩⟩
    · simpa using inside.length_le
    · simpa using inside.length_le
    · exact short x y rest rfl

theorem marked_iff {d : Str} : Marked d ↔ parseData d ≠ .ok none := by
  unfold parseData
  split
  · next inner =>
    cases quotedSlice inner <;> simp [Marked, Except.map]
  · next plain =>
    have unquoted : d.head? ≠ some '"' := fun quote => by
      obtain ⟨inner, same⟩ := head?_eq_some_iff.mp quote
      exact plain inner same
    simp only [Marked, unquoted, false_or, ← isSome_stripStart, ne_eq, Except.ok.injEq]
    unfold parseTyped
    cases stripStart "dword:".toList d with
    | some => exact iff_of_true (.inl rfl) nofun
    | none =>
    cases stripStart "hex:".toList d with
    | some => exact iff_of_true (.inr (.inl rfl)) nofun
    | none =>
    cases stripStart "str(2):".toList d with
    | some => exact iff_of_true (.inr (.inr (.inl rfl))) nofun
    | none =>
    cases stripStart "str(6):".toList d with
    | some => exact iff_of_true (.inr (.inr (.inr (.inl rfl)))) nofun
    | none =>
    simp only [Option.isSome_none, Bool.false_eq_true, false_or, ← isSome_splitAtPair]
    cases hex : stripStart "hex(".toList d with
    | none =>
      refine iff_of_false ?_ (not_not_intro rfl)
      rintro ⟨t, same, -⟩
      cases hex.symm.trans (stripStart_eq_some.mpr same.symm)
    | some typed =>
      obtain rfl := stripStart_eq_some.mp hex
      simp only [append_cancel_left_eq, exists_eq_left']
      cases splitAtPair ')' ':' typed <;> simp

theorem quoted_last {s rest : Str} (quoted : Quoted s rest) (ends : rest = []) :
    s.getLast? = some '"' := by
  induction quoted with
  | close => rw [ends]; rfl
  | plain _ _ _ ih => simp [getLast?_cons, ih ends]
  | escape _ _ ih => simp [getLast?_cons, ih ends]

theorem Data.read {d : Str} (data : Data d) : ∃ v, parseData d = .ok v := by
  cases data with
  | text quoted => exact ⟨_, by simp [parseData, quotedSlice, quoted_last quoted rfl, Except.map]; rfl⟩
  | _ => exact ⟨_, rfl⟩

/-! ### One line -/

theorem not_skipped {trimmed : Str} (header : trimmed.head? = some '[') :
    isSkippedLine trimmed = false := by
  obtain ⟨rest, rfl⟩ := head?_eq_some_iff.mp header
  rfl

variable [CaseMap] {st : LoadState} {line l : Str} {segments : List Str}

theorem loadLine_value (value : valueLine st line = some l) :
    loadLine segments st line = (parseRegValue l st.currentPath st.root).map fun root =>
      { st with root, continuation := [] } := by
  by_cases fresh : st.continuation = []
  · simp only [valueLine, fresh, ne_eq, not_true_eq_false, if_false] at value
    split_ifs at value with ordinary
    simp_all [loadLine]
  · simp only [valueLine, fresh, ne_eq, not_false_eq_true, if_true] at value
    split_ifs at value with goes_on
    cases value
    simp [loadLine, fresh, goes_on]

def HasHeader (st : LoadState) (line : Str) : Prop :=
  st.continuation = [] ∧ (trim line).head? = some '[' ∧ ']' ∈ trim line

theorem loadLine_header (segments : List Str) (st : LoadState) (header : HasHeader st line) :
    valueLine st line = none ∧
      loadLine segments st line = .ok (loadHeader segments st (trim line)) := by
  obtain ⟨fresh, opened, closed⟩ := header
  simp [valueLine, loadLine, fresh, opened, closed, not_skipped opened]

theorem loadLine_other (segments : List Str) (st : LoadState) (other : valueLine st line = none)
    (plain : ¬ HasHeader st line) :
    ∃ after, loadLine segments st line = .ok after ∧ after.root = st.root := by
  by_cases fresh : st.continuation = []
  · simp only [valueLine, fresh, ne_eq, not_true_eq_false, if_false] at other
    split_ifs at other with special
    simp only [loadLine, fresh, ne_eq, not_true_eq_false, if_false]
    split_ifs with skipped opened closed
    · exact ⟨st, rfl, rfl⟩
    · exact absurd ⟨fresh, opened, closed⟩ plain
    · exact ⟨st, rfl, rfl⟩
    · exact ⟨_, rfl, rfl⟩
    · rcases special with h | h | h <;> contradiction
  · simp only [valueLine, fresh, ne_eq, not_false_eq_true, if_true] at other
    split_ifs at other with goes_on
    simp [loadLine, fresh, goes_on]

/-- Whatever the registry, the line leaves it as it is. -/
def Harmless (segments : List Str) (st : LoadState) (line : Str) : Prop :=
  ∀ root after, loadLine segments { st with root } line = .ok after → after.root = root

theorem nil_of_kept {path : List Str} {f : RegistryKey → RegistryKey}
    (kept : walkMutCreate path f .new = .new) : path = [] := by
  cases path with
  | nil => rfl
  | cons seg rest =>
    have made := node_walkMutCreate_self (seg :: rest) f .new
    simp [kept, node_cons] at made

theorem harmless_header (header : HasHeader st line) : Harmless segments st line ↔
    segments ++ headerSegments (trim line) = [] := by
  have load (root : RegistryKey) := (loadLine_header segments { st with root } header).2
  constructor
  · intro harmless
    by_contra nonempty
    obtain ⟨seg, rest, path⟩ := exists_cons_of_ne_nil nonempty
    have kept := harmless .new _ (load .new)
    simp only [loadHeader, path] at kept
    have none : seg :: rest = [] := nil_of_kept kept
    cases none
  · intro empty root after read
    rw [load] at read
    cases read
    simp only [loadHeader, empty]
    rfl

theorem harmless_value (value : valueLine st line = some l) :
    (∃ after, loadLine segments st line = .ok after) ∧ Harmless segments st line ↔
      ¬ (st.currentPath ≠ [] ∧ ∃ d, Named l d ∧ Marked d) := by
  have load (root : RegistryKey) : loadLine segments { st with root } line =
      (parseRegValue l st.currentPath root).map fun root => { st with root, continuation := [] } :=
    loadLine_value value
  have quiet (same : ∀ root, parseRegValue l st.currentPath root = .ok root) :
      (∃ after, loadLine segments st line = .ok after) ∧ Harmless segments st line := by
    refine ⟨⟨_, (loadLine_value value).trans (by rw [same]; rfl)⟩, fun root after read => ?_⟩
    rw [load, same] at read
    cases read
    rfl
  by_cases top : st.currentPath = []
  · exact iff_of_true (quiet fun root => by rw [parseRegValue, if_pos top]) fun h => h.1 top
  simp only [ne_eq, top, not_false_eq_true, true_and, named_iff]
  cases parts : splitValueLine l with
  | none =>
    refine iff_of_true (quiet fun root => ?_) (by simp)
    rw [parseRegValue, if_neg top, parts]
  | some e =>
    obtain ⟨name, d⟩ := e
    have parse (root : RegistryKey) : parseRegValue l st.currentPath root =
        (parseData d).map fun v => v.elim root fun v =>
          walkMutCreate st.currentPath (.setValue name v) root := by
      rw [parseRegValue, if_neg top]
      generalize splitValueLine l = e at parts
      subst parts
      dsimp only
      congr 1
      funext v
      cases v <;> rfl
    have only : (∃ d', (∃ n, some (name, d) = some (n, d')) ∧ Marked d') ↔ Marked d := by simp
    rw [only, marked_iff]
    cases data : parseData d with
    | error p =>
      refine iff_of_false ?_ (not_not_intro nofun)
      rintro ⟨⟨after, read⟩, -⟩
      rw [loadLine_value value, parse, data] at read
      cases read
    | ok v =>
      cases v with
      | none => exact iff_of_true (quiet fun root => by rw [parse, data]; rfl) (by simp)
      | some v =>
        refine iff_of_false ?_ (not_not_intro nofun)
        rintro ⟨-, harmless⟩
        have read := load .new
        rw [parse, data] at read
        exact top (nil_of_kept (harmless .new _ read))

theorem harmless_iff : (∃ after, loadLine segments st line = .ok after) ∧ Harmless segments st line ↔
    ¬ Begins st line segments := by
  by_cases header : HasHeader st line
  · obtain ⟨other, read⟩ := loadLine_header segments st header
    rw [harmless_header header]
    obtain ⟨fresh, opened, closed⟩ := header
    simp [Begins, other, read, fresh, opened, closed]
  · have unheaded : ¬ (st.continuation = [] ∧ (trim line).head? = some '[' ∧ ']' ∈ trim line ∧
        segments ++ headerSegments (trim line) ≠ []) := fun h => header ⟨h.1, h.2.1, h.2.2.1⟩
    simp only [Begins, unheaded, or_false]
    cases value : valueLine st line with
    | none =>
      obtain ⟨after, read, -⟩ := loadLine_other segments st value header
      refine iff_of_true ⟨⟨after, read⟩, fun root after read => ?_⟩ (by simp)
      obtain ⟨after', read', kept⟩ := loadLine_other segments { st with root } value header
      cases read.symm.trans read'
      exact kept
    | some l => simpa using harmless_value value

/-! ### Whole files -/

theorem WellFormed.read (formed : WellFormed st line) :
    ∃ after, loadLine segments st line = .ok after := by
  rcases formed with ⟨l, d, value, named, data⟩ | ⟨fresh, path, after, header, -⟩
  · obtain ⟨name, parts⟩ := named_iff.mp named
    obtain ⟨v, read⟩ := data.read
    rw [loadLine_value value, parseRegValue]
    split_ifs
    · exact ⟨_, rfl⟩
    · simp [parts, read, Except.map]
  · exact ⟨_, (loadLine_header _ _ ⟨fresh, by simp [header], by simp [header]⟩).2⟩

/-- What holds of every line that is reached, in the state in which it is. -/
def Along (segments : List Str) (P : LoadState → Str → Prop) : LoadState → List Str → Prop
  | _, [] => True
  | st, line :: rest => P st line ∧
      ∀ after, loadLine segments st line = .ok after → Along segments P after rest

theorem along_iff {P Q : LoadState → Str → Prop} (same : ∀ st line,
      (∃ after, loadLine segments st line = .ok after) ∧ P st line ↔ Q st line) (text : List Str) :
    (loadLines segments st text).2 = none ∧ Along segments P st text ↔ Along segments Q st text := by
  induction text generalizing st with
  | nil => simp [loadLines, Along]
  | cons line rest ih =>
    rw [Along, Along, ← same, loadLines]
    cases read : loadLine segments st line with
    | error => simp
    | ok after => simp [← ih, and_left_comm]

section
variable (root : RegistryKey) (content rootPrefix : Str)

/-- The reading comes to an end, and every line it reaches that is not well formed leaves the
registry as it is. -/
def Readable : Prop :=
  (loadRegFile root content rootPrefix).2 = none ∧
    Along (splitPath rootPrefix)
      (fun st line => ¬ WellFormed st line → Harmless (splitPath rootPrefix) st line)
      ⟨root, [], []⟩ (lines content)

end

end Triskelion.RegistryText
