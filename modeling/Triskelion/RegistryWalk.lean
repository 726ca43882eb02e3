import Triskelion.RegistryTree

/-! The path walks of `registry.rs`. `walk` follows a link at the last key, counts
its link hops in a static counter, and compares a missing segment with its
siblings through a byte slice, which panics inside a character. -/

namespace Triskelion
open Option List

inductive Panic
  | charBoundary
  | sliceOrder
deriving DecidableEq

namespace RegistryWalk
open RegistryKey Utf16Text

def utf8Len (s : Str) : Nat := s.foldl (fun bytes c => bytes + c.utf8Size) 0

/-- `str::is_char_boundary`: the bytes before the index are whole characters. -/
def isCharBoundary : Str → Nat → Bool
  | _, 0 => true
  | [], _ + 1 => false
  | c :: rest, n + 1 => c.utf8Size ≤ n + 1 && isCharBoundary rest (n + 1 - c.utf8Size)

/-- `split('\\').filter(|s| !s.is_empty())`. -/
def splitPath (path : Str) : List Str := (path.splitOn '\\').filter fun s => !s.isEmpty

def parseKeyPath (nameUtf16le : List UInt8) : List Str :=
  splitPath (fromUtf16Lossy (ofLeBytes nameUtf16le))

def linkName : Str := "symboliclinkvalue".toList

variable [CaseMap]

/-- The target of a key whose `SymbolicLinkValue` is a `REG_LINK`. -/
def linkTarget (n : RegistryKey) : Option (List Str) :=
  match n.value linkName with
  | some v => if v.dataType = 6 then some (parseKeyPath v.data) else none
  | none => none

def substituteLink : RegistryKey → List Str → Option (List Str)
  | _, [] => none
  | k, seg :: rest =>
    match k.child seg with
    | none => none
    | some n =>
      match linkTarget n with
      | some (t :: target) => some (t :: target ++ rest)
      | _ => substituteLink n rest

def followRounds (root : RegistryKey) : Nat → List Str → List Str
  | 0, current => current
  | rounds + 1, current =>
    match substituteLink root current with
    | none => current
    | some resolved => followRounds root rounds resolved

section
variable (root : RegistryKey) (path : List Str)

def followSymlink : List Str := followRounds root 8 path

/-- `starts_with(&seg.lower[..seg.lower.len().min(3)])`, asked of each sibling. -/
def nearMatchPanics (k : RegistryKey) (seg : Str) : Bool :=
  !k.children.isEmpty && !isCharBoundary (lower seg) (min (utf8Len (lower seg)) 3)

def descend : List Str → RegistryKey → Except Panic (Option RegistryKey)
  | [], k => .ok (some k)
  | seg :: rest, k =>
    match k.child seg with
    | some c => descend rest c
    | none => if nearMatchPanics k seg then .error .charBoundary else .ok none

/-- Where a link at the last key leads: not to nothing, and not to the path itself. -/
def redirect (n : RegistryKey) : Option (List Str) :=
  match linkTarget n with
  | some target =>
    if target = [] ∨ target.map lower = path.map lower then none
    else some (followSymlink root target)
  | none => none

end

/-- What a call of `walk` leaves behind: its result, the value of `DEPTH`, and how
many recursive calls it made. -/
structure WalkResult where
  result : Except Panic (Option RegistryKey)
  depth : UInt8
  steps : Nat

/-- `walk` with `hops` recursive calls to go, which is `4 - DEPTH`. -/
def walkFrom (root : RegistryKey) : Nat → UInt8 → List Str → WalkResult
  | hops, depth, path =>
    match descend path root with
    | .error p => ⟨.error p, depth, 0⟩
    | .ok none => ⟨.ok none, depth, 0⟩
    | .ok (some n) =>
      match redirect root path n, hops with
      | none, _ => ⟨.ok (some n), depth, 0⟩
      | some _, 0 => ⟨.ok (some n), depth + 1 - 1, 0⟩
      | some resolved, hops + 1 =>
        let inner := walkFrom root hops (depth + 1) resolved
        match inner.result with
        -- the unwinding skips the `fetch_sub`
        | .error p => ⟨.error p, inner.depth, inner.steps + 1⟩
        | .ok none => ⟨.ok (some n), inner.depth - 1, inner.steps + 1⟩
        | .ok (some m) => ⟨.ok (some m), inner.depth - 1, inner.steps + 1⟩

def walk (root : RegistryKey) (depth : UInt8) (path : List Str) : WalkResult :=
  walkFrom root (4 - depth.toNat) depth path

/-- The first segment that is missing on the path has siblings, and its third byte
ends inside a character. -/
def SplitsChar (root : RegistryKey) (path : List Str) : Prop :=
  ∃ before seg after n, path = before ++ seg :: after ∧ node before root = some n ∧
    n.child seg = none ∧ nearMatchPanics n seg

/-- The paths that are walked: the given one and those its links lead to. -/
def visits (root : RegistryKey) : Nat → List Str → List (List Str)
  | 0, path => [path]
  | hops + 1, path =>
    path :: match (node path root).bind (redirect root path) with
      | none => []
      | some resolved => visits root hops resolved

variable {path : List Str}

theorem descend_eq (path : List Str) (k : RegistryKey) :
    descend path k = .ok (node path k) ∧ ¬ SplitsChar k path ∨
      descend path k = .error .charBoundary ∧ SplitsChar k path := by
  induction path generalizing k with
  | nil =>
    left
    refine ⟨rfl, ?_⟩
    rintro ⟨before, seg, after, n, split, -⟩
    simp at split
  | cons seg rest ih =>
    rw [descend, node_cons]
    cases inside : k.child seg with
    | some c =>
      have shift : SplitsChar k (seg :: rest) ↔ SplitsChar c rest := by
        constructor
        · rintro ⟨before, s, after, n, split, found, missing, near⟩
          cases before with
          | nil =>
            obtain ⟨rfl, rfl⟩ := cons.inj split
            rw [← some.inj found, inside] at missing
            cases missing
          | cons b before =>
            obtain ⟨rfl, rfl⟩ := cons.inj split
            rw [node_cons, inside] at found
            exact ⟨before, s, after, n, rfl, found, missing, near⟩
        · rintro ⟨before, s, after, n, rfl, found, missing, near⟩
          refine ⟨seg :: before, s, after, n, rfl, ?_, missing, near⟩
          rw [node_cons, inside]
          exact found
      rw [shift]
      exact ih c
    | none =>
      by_cases near : nearMatchPanics k seg
      · right
        exact ⟨if_pos near, [], seg, rest, k, rfl, rfl, inside, near⟩
      · left
        refine ⟨if_neg near, ?_⟩
        rintro ⟨before, s, after, n, split, found, missing, near'⟩
        cases before with
        | nil =>
          obtain ⟨rfl, rfl⟩ := cons.inj split
          rw [← some.inj found] at near'
          exact near near'
        | cons b before =>
          obtain ⟨rfl, rfl⟩ := cons.inj split
          rw [node_cons, inside] at found
          cases found

variable {root : RegistryKey} {hops : Nat}

section
variable (root : RegistryKey) (hops : Nat)

theorem mem_visits_self (path : List Str) : path ∈ visits root hops path := by
  cases hops <;> simp [visits]

theorem walkFrom_steps_le (depth : UInt8) (path : List Str) :
    (walkFrom root hops depth path).steps ≤ hops := by
  induction hops generalizing depth path with
  | zero =>
    rw [walkFrom]
    split
    · exact le_rfl
    · exact le_rfl
    · split <;> first | exact le_rfl | contradiction
  | succ hops ih =>
    rw [walkFrom]
    split
    · simp
    · simp
    · next n _ =>
      cases redirect root path n with
      | none => simp
      | some resolved =>
        have bound := ih (depth + 1) resolved
        dsimp only
        split <;> simpa using bound

/-- A walk along paths that split no character comes back with the counter it was
given; any other panics. -/
theorem walkFrom_returns (depth : UInt8) (path : List Str) :
    (∃ found, (walkFrom root hops depth path).result = .ok found) ∧
        (walkFrom root hops depth path).depth = depth ∧
        (∀ p ∈ visits root hops path, ¬ SplitsChar root p) ∨
      (∃ p, (walkFrom root hops depth path).result = .error p) ∧
        ∃ p ∈ visits root hops path, SplitsChar root p := by
  induction hops generalizing depth path with
  | zero =>
    rcases descend_eq path root with ⟨walked, clean⟩ | ⟨walked, split⟩
    · left
      have one : ∀ p ∈ visits root 0 path, ¬ SplitsChar root p := by simpa [visits] using clean
      rw [walkFrom, walked]
      cases node path root with
      | none => exact ⟨⟨none, rfl⟩, rfl, one⟩
      | some n =>
        dsimp only
        cases redirect root path n with
        | none => exact ⟨⟨some n, rfl⟩, rfl, one⟩
        | some => exact ⟨⟨some n, rfl⟩, by simp, one⟩
    · right
      rw [walkFrom, walked]
      exact ⟨⟨_, rfl⟩, path, mem_visits_self root 0 path, split⟩
  | succ hops ih =>
    rcases descend_eq path root with ⟨walked, clean⟩ | ⟨walked, split⟩
    · rw [walkFrom, walked, visits]
      cases node path root with
      | none => exact .inl ⟨⟨none, rfl⟩, rfl, by simpa using clean⟩
      | some n =>
        rw [bind_some]
        dsimp only
        cases redirect root path n with
        | none => exact .inl ⟨⟨some n, rfl⟩, rfl, by simpa using clean⟩
        | some resolved =>
          dsimp only
          rcases ih (depth + 1) resolved with ⟨⟨found, result⟩, restored, rest⟩ | ⟨⟨p, result⟩, rest⟩
          · left
            have all : ∀ p ∈ path :: visits root hops resolved, ¬ SplitsChar root p := by
              intro p mem
              rcases mem_cons.mp mem with rfl | later
              · exact clean
              · exact rest p later
            rw [result, restored]
            cases found with
            | none => exact ⟨⟨some n, rfl⟩, by simp, all⟩
            | some m => exact ⟨⟨some m, rfl⟩, by simp, all⟩
          · right
            rw [result]
            obtain ⟨q, mem, split⟩ := rest
            exact ⟨⟨p, rfl⟩, q, mem_cons_of_mem _ mem, split⟩
    · right
      rw [walkFrom, walked]
      exact ⟨⟨_, rfl⟩, path, mem_visits_self root (hops + 1) path, split⟩

end

/-- The path of the key that a walk ends at: the last one on its way that exists. -/
def readPath (root : RegistryKey) : Nat → List Str → List Str
  | 0, path => path
  | hops + 1, path =>
    match (node path root).bind (redirect root path) with
    | none => path
    | some resolved => if (node resolved root).isSome then readPath root hops resolved else path

section
variable (root : RegistryKey) (hops : Nat)

theorem readPath_exists (path : List Str)
    (found : (node path root).isSome) : (node (readPath root hops path) root).isSome := by
  induction hops generalizing path with
  | zero => exact found
  | succ hops ih =>
    rw [readPath]
    split
    · exact found
    · next resolved _ =>
      split
      · next inside => exact ih resolved inside
      · exact found

theorem readPath_missing (missing : node path root = none) : readPath root hops path = path := by
  cases hops with
  | zero => rfl
  | succ hops => rw [readPath, missing, bind_none]

theorem walkFrom_readPath (depth : UInt8) (path : List Str)
    (clean : ∀ p ∈ visits root hops path, ¬ SplitsChar root p) :
    (walkFrom root hops depth path).result = .ok (node (readPath root hops path) root) := by
  have first := clean path (mem_visits_self root hops path)
  rcases descend_eq path root with ⟨walked, -⟩ | ⟨-, split⟩
  · induction hops generalizing depth path with
    | zero =>
      rw [walkFrom, walked, readPath]
      cases node path root with
      | none => rfl
      | some n => dsimp only; cases redirect root path n <;> rfl
    | succ hops ih =>
      rw [walkFrom, walked, readPath]
      rw [visits] at clean
      cases found : node path root with
      | none => exact congrArg _ found.symm
      | some n =>
        rw [found, bind_some] at clean
        rw [bind_some]
        dsimp only
        cases led : redirect root path n with
        | none => exact congrArg _ found.symm
        | some resolved =>
          rw [led] at clean
          have rest : ∀ p ∈ visits root hops resolved, ¬ SplitsChar root p :=
            fun p mem => clean p (mem_cons_of_mem _ mem)
          have next := rest resolved (mem_visits_self root hops resolved)
          have inner := ih (depth + 1) resolved rest next
            ((descend_eq resolved root).resolve_right fun h => next h.2).1
          dsimp only
          rw [inner]
          cases inside : node resolved root with
          | none =>
            rw [readPath_missing root hops inside, inside]
            exact congrArg _ found.symm
          | some =>
            have last := readPath_exists root hops resolved (by rw [inside]; rfl)
            rw [if_pos (by rfl)]
            obtain ⟨e, ends⟩ := isSome_iff_exists.mp last
            rw [ends]
  · exact absurd split first

end

/-- A call of `walk` and one of `walk_mut_create` that come back as they should. -/
structure Returns (root : RegistryKey) (depth : UInt8) (path : List Str) : Prop where
  noPanic : ∃ found, (walk root depth path).result = .ok found
  restored : (walk root depth path).depth = depth
  bounded : (walk root depth path).steps ≤ 4
  created : (node path (walkMutCreate path id root)).isSome

theorem walk_returns_iff (root : RegistryKey) (depth : UInt8) (path : List Str) :
    Returns root depth path ↔ ∀ p ∈ visits root (4 - depth.toNat) path, ¬ SplitsChar root p := by
  have steps := walkFrom_steps_le root (4 - depth.toNat) depth path
  rcases walkFrom_returns root (4 - depth.toNat) depth path with
    ⟨found, restored, clean⟩ | ⟨⟨p, panicked⟩, q, mem, split⟩
  · refine ⟨fun _ => clean, fun _ => ⟨found, restored, ?_, ?_⟩⟩
    · exact steps.trans (Nat.sub_le 4 _)
    · rw [node_walkMutCreate_self]
      rfl
  · constructor
    · rintro ⟨⟨found, returned⟩, -, -, -⟩
      rw [walk, panicked] at returned
      cases returned
    · intro clean
      exact absurd split (clean q mem)

end RegistryWalk

theorem toLower_symbol {c d : Char} (symbol : ¬ (97 ≤ d.val ∧ d.val ≤ 122))
    (h : Char.toLower c = d) : c = d := by
  delta Char.toLower at h
  split at h
  · grind
  · exact h

@[reducible] def asciiCase : CaseMap where
  lower s := s.map Char.toLower
  lower_ascii _ _ := rfl
  lower_backslash s := by
    rw [getLast?_map, map_eq_some_iff]
    constructor
    · rintro ⟨c, last, lowered⟩
      rw [last, toLower_symbol (by decide) lowered]
    · intro last
      exact ⟨_, last, rfl⟩
  lower_at s h := by
    obtain ⟨c, rfl, lowered⟩ := map_eq_singleton_iff.mp h
    rw [toLower_symbol (by decide) lowered]

namespace RegistryWalk

def oneChild : RegistryKey := ⟨[("a".toList, RegistryKey.new)], [], []⟩

theorem walk_accented_panics : ¬ @Returns asciiCase oneChild 0 ["éé".toList] := by
  rintro ⟨⟨found, returned⟩, -, -, -⟩
  cases returned

end RegistryWalk
end Triskelion
