import Triskelion.Utf16Text

/-! Scanning and formatting of text as the Rust standard library does it: lines,
white space, separators of one and two characters, hexadecimal numbers. -/

namespace Triskelion.TextScan

open List

/-- A line without the carriage return before its line feed; the line is given backwards. -/
def endLine : Str → Str
  | '\r' :: line => line.reverse
  | line => line.reverse

/-- `str::lines`, with the part of the current line that has been read, backwards. -/
def linesFrom : Str → Str → List Str
  | [], [] => []
  | line, [] => [line.reverse]
  | line, c :: rest =>
    if c = '\n' then endLine line :: linesFrom [] rest else linesFrom (c :: line) rest

def lines (text : Str) : List Str := linesFrom [] text

def isWhitespace (c : Char) : Bool :=
  (0x09 ≤ c.toNat && c.toNat ≤ 0x0D) || (0x2000 ≤ c.toNat && c.toNat ≤ 0x200A) ||
    [0x20, 0x85, 0xA0, 0x1680, 0x2028, 0x2029, 0x202F, 0x205F, 0x3000].contains c.toNat

def trim (s : Str) : Str := (s.dropWhile isWhitespace).rdropWhile isWhitespace

def splitDouble (c : Char) : Str → List Str
  | [] => [[]]
  | [a] => [[a]]
  | a :: b :: rest =>
    if a = c ∧ b = c then [] :: splitDouble c rest
    else (splitDouble c (b :: rest)).modifyHead (a :: ·)

def splitAtPair (a b : Char) : Str → Option (Str × Str)
  | x :: y :: rest =>
    if x = a ∧ y = b then some ([], rest)
    else (splitAtPair a b (y :: rest)).map fun found => (x :: found.1, found.2)
  | _ => none

/-- `strip_prefix`. -/
def stripStart : Str → Str → Option Str
  | [], s => some s
  | _ :: _, [] => none
  | p :: ps, c :: s => if p = c then stripStart ps s else none

def hexValue (c : Char) : Option Nat :=
  if 0x30 ≤ c.toNat ∧ c.toNat ≤ 0x39 then some (c.toNat - 0x30)
  else if 0x61 ≤ c.toNat ∧ c.toNat ≤ 0x66 then some (c.toNat - 0x61 + 10)
  else if 0x41 ≤ c.toNat ∧ c.toNat ≤ 0x46 then some (c.toNat - 0x41 + 10)
  else none

def hexDigits : Nat → Str → Option Nat
  | value, [] => some value
  | value, c :: rest => (hexValue c).bind fun digit => hexDigits (value * 16 + digit) rest

def dropPlus : Str → Str
  | '+' :: rest => rest
  | s => s

def fromStrRadix16 (bound : Nat) (s : Str) : Option Nat :=
  if dropPlus s = [] then none
  else (hexDigits 0 (dropPlus s)).filter fun value => value < bound

/-- `{:0w$x}`. -/
def formatHex (width n : Nat) : Str := (Nat.toDigits 16 n).leftpad width '0'

variable {line : Str}

theorem endLine_reverse (plain : line.getLast? ≠ some '\r') : endLine line.reverse = line := by
  rw [endLine]
  · exact reverse_reverse line
  · intro rest equal
    apply plain
    rw [← head?_reverse, equal]
    rfl

variable {rest : Str}

theorem linesFrom_line (noBreak : '\n' ∉ line) (read : Str) :
    linesFrom read (line ++ '\n' :: rest) = endLine (line.reverse ++ read) :: linesFrom [] rest := by
  induction line generalizing read with
  | nil => simp [linesFrom]
  | cons c line ih =>
    have head : c ≠ '\n' := fun equal => noBreak (equal ▸ mem_cons_self)
    have tail : '\n' ∉ line := fun mem => noBreak (mem_cons_of_mem _ mem)
    rw [cons_append, linesFrom, if_neg head, ih tail]
    simp

theorem lines_unlines {written : List Str}
    (plain : ∀ line ∈ written, '\n' ∉ line ∧ line.getLast? ≠ some '\r') :
    lines (written.flatMap fun line => line ++ ['\n']) = written := by
  induction written with
  | nil => rfl
  | cons line rest ih =>
    have first := plain line mem_cons_self
    rw [lines, flatMap_cons, append_assoc, singleton_append,
      linesFrom_line first.1, append_nil, endLine_reverse first.2]
    exact congrArg _ (ih fun l mem => plain l (mem_cons_of_mem _ mem))

theorem trim_eq {first last : Char} (middle : Str) (before : isWhitespace first = false)
    (after : isWhitespace last = false) :
    trim (first :: middle ++ [last]) = first :: middle ++ [last] := by
  rw [trim, cons_append, dropWhile_cons_of_neg (by simp [before]), ← cons_append,
    rdropWhile_concat_neg _ _ _ (by simp [after])]

variable {c : Char} {s : Str}

theorem head?_trim (printed : isWhitespace c = false) : (trim (c :: s)).head? = some c := by
  rw [trim, dropWhile_cons_of_neg (by simp [printed])]
  have nonempty : (c :: s).rdropWhile isWhitespace ≠ [] := fun dropped => by
    have blank := rdropWhile_eq_nil_iff.mp dropped c mem_cons_self
    simp [printed] at blank
  obtain ⟨rest, equal⟩ := rdropWhile_prefix isWhitespace (c :: s)
  cases kept : (c :: s).rdropWhile isWhitespace with
  | nil => exact absurd kept nonempty
  | cons d kept' =>
    rw [kept] at equal
    exact congrArg some (cons.inj equal).1

section
variable (single : s.IsChain fun x y => ¬ (x = c ∧ y = c))
include single

theorem splitDouble_segment (open_ : s.getLast? ≠ some c) :
    splitDouble c (s ++ c :: c :: rest) = s :: splitDouble c rest := by
  induction s with
  | nil => simp [splitDouble]
  | cons a tail ih =>
    cases tail with
    | nil =>
      have other : a ≠ c := fun equal => open_ (by simp [equal])
      simp [splitDouble, other]
    | cons b tail =>
      rw [isChain_cons_cons] at single
      have rest := ih single.2 (by simpa using open_)
      rw [cons_append] at rest
      rw [cons_append, cons_append, splitDouble, if_neg single.1, rest]
      rfl

theorem splitDouble_last : splitDouble c s = [s] := by
  induction s with
  | nil => rfl
  | cons a tail ih =>
    cases tail with
    | nil => rfl
    | cons b tail =>
      rw [isChain_cons_cons] at single
      rw [splitDouble, if_neg single.1, ih single.2]
      rfl

end

theorem splitDouble_join {rest : List Str}
    (single : ∀ t ∈ s :: rest, t.IsChain fun x y => ¬ (x = c ∧ y = c))
    (ends : ∀ t ∈ (s :: rest).dropLast, t.getLast? ≠ some c) :
    splitDouble c (s ++ rest.flatMap fun t => c :: c :: t) = s :: rest := by
  induction rest generalizing s with
  | nil =>
    rw [flatMap_nil, append_nil]
    exact splitDouble_last (single s mem_cons_self)
  | cons t rest ih =>
    have inner := @ih t (fun u mem => single u (mem_cons_of_mem _ mem))
      (fun u mem => ends u (mem_cons_of_mem _ mem))
    rw [flatMap_cons, cons_append, cons_append,
      splitDouble_segment (single s mem_cons_self) (ends s mem_cons_self), inner]

/-- A text is joined again from its segments, and the segments are the leftmost ones. -/
theorem splitDouble_spec (c : Char) (text : Str) :
    ∃ s rest, splitDouble c text = s :: rest ∧ text = s ++ (rest.flatMap fun t => c :: c :: t) ∧
      (∀ t ∈ s :: rest, t.IsChain fun x y => ¬ (x = c ∧ y = c)) ∧
      (∀ t ∈ (s :: rest).dropLast, t.getLast? ≠ some c) := by
  fun_induction splitDouble c text with
  | case1 => exact ⟨[], [], by simp⟩
  | case2 a => exact ⟨[a], [], by simp⟩
  | case3 a b rest double ih =>
    obtain ⟨s, segments, equal, joined, single, ends⟩ := ih
    refine ⟨[], s :: segments, by rw [equal], ?_, ?_, ?_⟩
    · rw [double.1, double.2, joined]
      rfl
    · intro t mem
      rcases mem_cons.mp mem with rfl | later
      · exact .nil
      · exact single t later
    · intro t mem
      rcases mem_cons.mp mem with rfl | later
      · simp
      · exact ends t later
  | case4 a b rest apart ih =>
    obtain ⟨s, segments, equal, joined, single, ends⟩ := ih
    refine ⟨a :: s, segments, by rw [equal]; rfl, by rw [joined]; rfl, ?_, ?_⟩
    · intro t mem
      rcases mem_cons.mp mem with rfl | later
      · cases s with
        | nil => exact .singleton a
        | cons d s =>
          obtain ⟨rfl, -⟩ := cons.inj joined
          exact isChain_cons_cons.mpr ⟨apart, single _ mem_cons_self⟩
      · exact single t (mem_cons_of_mem _ later)
    · cases segments with
      | nil => simp
      | cons u segments =>
        intro t mem
        rcases mem_cons.mp mem with rfl | later
        · cases s with
          | nil =>
            -- the next segment starts right here
            obtain ⟨rfl, -⟩ := cons.inj joined
            simpa using fun same => apart ⟨same, rfl⟩
          | cons d s =>
            rw [getLast?_cons_cons]
            exact ends _ mem_cons_self
        · exact ends t (mem_cons_of_mem _ later)

theorem mem_of_stripStart {p after : Str} (found : stripStart p s = some after) (mem : c ∈ after) :
    c ∈ s := by
  induction p generalizing s with
  | nil => exact Option.some.inj found ▸ mem
  | cons a p ih =>
    cases s with
    | nil => cases found
    | cons b s =>
      rw [stripStart] at found
      split at found
      · exact mem_cons_of_mem _ (ih found)
      · cases found

theorem splitAtPair_of_not_mem {a b : Char} {before : Str} (absent : a ∉ before) :
    splitAtPair a b (before ++ a :: b :: rest) = some (before, rest) := by
  induction before with
  | nil => simp [splitAtPair]
  | cons c before ih =>
    have head : c ≠ a := fun equal => absent (equal ▸ mem_cons_self)
    have inner := ih fun mem => absent (mem_cons_of_mem _ mem)
    cases before with
    | nil =>
      simp [splitAtPair, head]
    | cons d before =>
      rw [cons_append] at inner
      rw [cons_append, cons_append, splitAtPair, if_neg (fun h => head h.1), inner]
      rfl

theorem hexValue_digitChar {d : Nat} (small : d < 16) : hexValue d.digitChar = some d := by
  have all : ∀ d < 16, hexValue d.digitChar = some d := by decide
  exact all d small

theorem hexDigits_append (value : Nat) (t : Str) :
    hexDigits value (s ++ t) = (hexDigits value s).bind fun v => hexDigits v t := by
  induction s generalizing value with
  | nil => rfl
  | cons c s ih =>
    simp only [cons_append, hexDigits]
    cases hexValue c with
    | none => rfl
    | some => exact ih _

variable {n : Nat}

theorem hexDigits_toDigits : hexDigits 0 (Nat.toDigits 16 n) = some n := by
  induction n using Nat.strongRecOn with
  | ind n ih =>
    by_cases small : n < 16
    · rw [Nat.toDigits_of_lt_base small, hexDigits, hexValue_digitChar small]
      simp [hexDigits]
    · rw [Nat.toDigits_of_base_le (by omega) (by omega), hexDigits_append, ih (n / 16) (by omega)]
      simp only [Option.bind_some, hexDigits, hexValue_digitChar (Nat.mod_lt n (by omega : 0 < 16))]
      congr 1
      omega

theorem hexDigits_zeros (k : Nat) : hexDigits 0 (replicate k '0' ++ s) = hexDigits 0 s := by
  induction k with
  | zero => rfl
  | succ k ih =>
    rw [replicate_succ, cons_append, hexDigits]
    simpa [hexValue] using ih

variable {width : Nat}

theorem hexDigits_formatHex (width n : Nat) : hexDigits 0 (formatHex width n) = some n := by
  rw [formatHex, leftpad, hexDigits_zeros, hexDigits_toDigits]

theorem mem_formatHex (mem : c ∈ formatHex width n) : (hexValue c).isSome := by
  have parsed := hexDigits_formatHex width n
  generalize formatHex width n = s at *
  generalize 0 = value at parsed
  induction s generalizing value with
  | nil => cases mem
  | cons d s ih =>
    rw [hexDigits] at parsed
    cases digit : hexValue d with
    | none => simp [digit] at parsed
    | some =>
      rw [digit] at parsed
      rcases mem_cons.mp mem with rfl | tail
      · rw [digit]; rfl
      · exact ih tail _ parsed

theorem formatHex_ne_nil : formatHex width n ≠ [] := by
  intro empty
  have digits : Nat.toDigits 16 n ≠ [] := Nat.toDigits_ne_nil
  rw [formatHex, leftpad, append_eq_nil_iff] at empty
  exact digits empty.2

theorem fromStrRadix16_formatHex {bound : Nat} (small : n < bound) :
    fromStrRadix16 bound (formatHex width n) = some n := by
  have unsigned : dropPlus (formatHex width n) = formatHex width n := by
    rw [dropPlus]
    intro rest equal
    have plus := mem_formatHex (c := '+') (by rw [equal]; exact mem_cons_self)
    simp [hexValue] at plus
  rw [fromStrRadix16, unsigned, if_neg formatHex_ne_nil, hexDigits_formatHex]
  simp [small]

end Triskelion.TextScan
